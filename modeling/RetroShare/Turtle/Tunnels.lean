import RetroShare.Foundation.Word
import RetroShare.Turtle.Search

/-!
# Tunnels of the turtle router

Who wants a file sends a request for tunnels to its friends, and they send it on to theirs. Who has the
file answers. The answer goes back the way of the request, and each router on it keeps a tunnel: what
comes from one side of it is sent to the other. The two ends know each other by a virtual peer id that
they make from the id of the tunnel, and the id of the tunnel is cooked from the hash and the routers on
the way.
-/

namespace RetroShare.Turtle.Tunnels

open RegularExpression

/-- `TUNNEL_REQUESTS_LIFE_TIME` -/
def tunnelRequestsLifeTime : Nat := 240

/-- `MAXIMUM_TUNNEL_IDLE_TIME` -/
def maximumTunnelIdleTime : Nat := 60

/-- The service that a tunnel is for, in place of the pointer to it. -/
abbrev ServiceId := Nat

theorem length_nullPeerId : (List.replicate 16 (0 : UInt8)).length = 16 := rfl

def nullPeerId : PeerId := ⟨List.replicate 16 0, length_nullPeerId⟩

theorem length_nullFileHash : (List.replicate 20 (0 : UInt8)).length = 20 := rfl

def nullFileHash : FileHash := ⟨List.replicate 20 0, length_nullFileHash⟩

/-! ### Items -/

structure OpenTunnelItem where
  fileHash : FileHash
  requestId : Nat
  partialTunnelId : UInt32
  depth : UInt16

structure TunnelOkItem where
  tunnelId : Nat
  requestId : Nat

structure GenericTunnelItem where
  tunnelId : Nat
  shouldStampTunnel : Bool
  data : List UInt8

inductive TurtleItem
  | openTunnel (item : OpenTunnelItem)
  | tunnelOk (item : TunnelOkItem)
  | generic (item : GenericTunnelItem)

/-- `DIRECTION_CLIENT` is towards who asked for the file, `DIRECTION_SERVER` towards who has it. -/
inductive Direction
  | client
  | server
  deriving DecidableEq

def Direction.opposite : Direction → Direction
  | client => server
  | server => client

/-! ### State -/

structure TurtleTunnelRequestInfo where
  origin : PeerId
  timeStamp : Nat
  depth : UInt16
  responses : List Nat := []

structure TurtleTunnel where
  localSrc : PeerId := nullPeerId
  localDst : PeerId := nullPeerId
  timeStamp : Nat := 0
  hash : FileHash := nullFileHash
  vpid : PeerId := nullPeerId

structure TurtleHashInfo where
  tunnels : List Nat := []
  lastRequest : Nat := 0
  lastDiggTime : Nat := 0
  service : Option ServiceId := none
  useAggressiveMode : Bool := false

/-- What the router calls at the services. -/
inductive ServiceCall
  | addVirtualPeer (service : Option ServiceId) (hash : FileHash) (vpid : PeerId) (direction : Direction)
  | removeVirtualPeer (service : Option ServiceId) (hash : FileHash) (vpid : PeerId)
  | receiveTurtleData (service : Option ServiceId) (data : List UInt8) (hash : FileHash) (vpid : PeerId)
      (direction : Direction)
  deriving DecidableEq

/-- `p3turtle`: the tables of the tunnels, and what a call sends and calls. -/
structure TurtleRouter where
  ownId : PeerId
  randomBias : UInt32
  tunnelRequestsOrigins : OrderedMap Nat TurtleTunnelRequestInfo := ∅
  localTunnels : OrderedMap Nat TurtleTunnel := ∅
  incomingFileHashes : OrderedMap FileHash TurtleHashInfo := ∅
  hashesToRemove : OrderedMap FileHash Unit := ∅
  virtualPeers : OrderedMap PeerId Nat := ∅
  outgoingTunnelClientServices : OrderedMap Nat ServiceId := ∅
  sent : List (PeerId × TurtleItem) := []
  calls : List ServiceCall := []

/-- What one call reads from outside: the clock, the hashes that are banned, the services and what they
say to a hash, the peers that are there, and for which of them the random draw is below the forward
probability. -/
structure Surroundings where
  now : Nat
  isHashBanned : FileHash → Bool
  registeredServices : List ServiceId
  handleTunnelRequest : ServiceId → FileHash → PeerId → Bool
  peersConnected : List PeerId
  linkType : PeerId → UInt32
  forwards : PeerId → Bool

/-- One character of `generatePersonalFilePrint`, on `res` and `decal`. -/
def printStep (b : Bool) (state : UInt32 × UInt32) (c : UInt8) : UInt32 × UInt32 :=
  let res := state.1 + (7 * c.toUInt32 + state.2)
  (res, if b then state.2 * 44497 + 15641 + res % 86243 else state.2 * 86243 + 15649 + res % 44497)

def generatePersonalFilePrint (ownId : PeerId) (hash : FileHash) (seed : UInt32) (b : Bool) : UInt32 :=
  ((toStdString hash.1 ++ toStdString ownId.1).foldl (printStep b) (seed, 0)).1

/-- The virtual peer that `locked_addDistantPeer` makes of a tunnel id. -/
def virtualPeerId (tid : Nat) : PeerId :=
  ⟨[UInt8.ofNat (tid >>> 24), UInt8.ofNat (tid >>> 16), UInt8.ofNat (tid >>> 8), UInt8.ofNat tid] ++
    List.replicate 12 0, rfl⟩

namespace TurtleRouter

def sendItem (peerId : PeerId) (item : TurtleItem) (r : TurtleRouter) : TurtleRouter :=
  { r with sent := r.sent ++ [(peerId, item)] }

def callService (call : ServiceCall) (r : TurtleRouter) : TurtleRouter :=
  { r with calls := r.calls ++ [call] }

def addDistantPeer (tid : Nat) (r : TurtleRouter) : TurtleRouter :=
  let vpid := virtualPeerId tid
  let tunnel := (r.localTunnels[tid]?).getD {}
  { r with
    virtualPeers := r.virtualPeers.insert vpid tid
    localTunnels := r.localTunnels.insert tid { tunnel with vpid } }

/-! ### Requests -/

def performLocalHashSearch (env : Surroundings) (hash : FileHash) (peerId : PeerId) : Option ServiceId :=
  env.registeredServices.find? fun service => env.handleTunnelRequest service hash peerId

/-- The hash was found here: the tunnel ends with us. -/
def endTunnel (env : Surroundings) (peerId : PeerId) (item : OpenTunnelItem) (service : ServiceId)
    (r : TurtleRouter) : TurtleRouter :=
  let tid := (item.partialTunnelId ^^^
    generatePersonalFilePrint r.ownId item.fileHash r.randomBias false).toNat
  let r := r.sendItem peerId (.tunnelOk ⟨tid, item.requestId⟩)
  let r := { r with
    localTunnels := r.localTunnels.insert tid {
      localSrc := peerId
      localDst := r.ownId
      timeStamp := env.now % 2 ^ 32
      hash := item.fileHash } }
  let r := r.addDistantPeer tid
  let r := { r with
    outgoingTunnelClientServices := r.outgoingTunnelClientServices.insert tid service }
  let vpid := ((r.localTunnels[tid]?).getD {}).vpid
  r.callService (.addVirtualPeer (some service) item.fileHash vpid .client)

/-- The two tests on `_random_bias` and the partial tunnel id. -/
def biased (item : OpenTunnelItem) (value : UInt32) (r : TurtleRouter) : Bool :=
  (r.randomBias ^^^ item.partialTunnelId) &&& 7 = value

/-- The hash was not found here: the request goes on, with another partial tunnel id. -/
def forwardTunnelRequest (env : Surroundings) (peerId : PeerId) (item : OpenTunnelItem)
    (r : TurtleRouter) : TurtleRouter :=
  let randomBypass := item.depth ≥ maxSearchDepth && r.biased item 2
  let randomDshift := item.depth = 1 && r.biased item 6
  let partialTunnelId :=
    generatePersonalFilePrint r.ownId item.fileHash (item.partialTunnelId ^^^ r.randomBias) true
  if item.depth < maxSearchDepth || randomBypass then
    let item := { item with
      partialTunnelId
      depth := if randomDshift then item.depth else item.depth + 1 }
    let peers := env.peersConnected.filter fun peer =>
      env.linkType peer &&& slowLinkTypes = 0 && peer ≠ peerId && env.forwards peer
    { r with sent := r.sent ++ peers.map fun peer => (peer, .openTunnel item) }
  else r

def handleTunnelRequest (env : Surroundings) (peerId : PeerId) (item : OpenTunnelItem)
    (r : TurtleRouter) : TurtleRouter :=
  if env.isHashBanned item.fileHash then r
  else if item.requestId ∈ r.tunnelRequestsOrigins then r
  else
    let r := { r with
      tunnelRequestsOrigins := r.tunnelRequestsOrigins.insert item.requestId {
        origin := peerId
        timeStamp := env.now % 2 ^ 32
        depth := item.depth } }
    -- our own requests are not searched here
    let found := if peerId = r.ownId then none else performLocalHashSearch env item.fileHash peerId
    match found with
    | some service => r.endTunnel env peerId item service
    | none => r.forwardTunnelRequest env peerId item

/-- `id` is what `generateRandomRequestId` draws. -/
def diggTunnel (env : Surroundings) (hash : FileHash) (id : Nat) (r : TurtleRouter) : TurtleRouter :=
  let info := (r.incomingFileHashes[hash]?).getD {}
  let r := { r with
    incomingFileHashes :=
      r.incomingFileHashes.insert hash { info with lastRequest := id, lastDiggTime := env.now } }
  r.handleTunnelRequest env r.ownId {
    fileHash := hash
    requestId := id
    partialTunnelId := generatePersonalFilePrint r.ownId hash r.randomBias true
    depth := 0 }

/-- `draw` is what `RSRandom::random_u32` gives. -/
def monitorTunnels (hash : FileHash) (clientService : ServiceId) (allowMultiTunnels : Bool) (draw : Nat)
    (r : TurtleRouter) : TurtleRouter :=
  let r := { r with hashesToRemove := r.hashesToRemove.erase hash }
  if hash ∈ r.incomingFileHashes then r
  else { r with
    incomingFileHashes := r.incomingFileHashes.insert hash {
      useAggressiveMode := allowMultiTunnels
      lastDiggTime := draw % 10
      service := some clientService } }

def stopMonitoringTunnels (hash : FileHash) (r : TurtleRouter) : TurtleRouter :=
  { r with hashesToRemove := r.hashesToRemove.insert hash () }

/-! ### Results -/

/-- The tunnel is one for `hash`, which is ours. -/
def addSource (tid : Nat) (hash : FileHash) (info : TurtleHashInfo) (r : TurtleRouter) : TurtleRouter :=
  let tunnels := if tid ∈ info.tunnels then info.tunnels else info.tunnels ++ [tid]
  let tunnel := (r.localTunnels[tid]?).getD {}
  let r := { r with
    incomingFileHashes := r.incomingFileHashes.insert hash { info with tunnels }
    localTunnels := r.localTunnels.insert tid { tunnel with hash } }
  r.addDistantPeer tid

/-- The hashes whose last request it was, one after the other. What is called at the end is for the last
one of them. -/
def startTunnel (item : TunnelOkItem) (r : TurtleRouter) : TurtleRouter :=
  let requested := r.incomingFileHashes.toList.filter fun entry => entry.2.lastRequest = item.requestId
  let r := requested.foldl (fun r entry => r.addSource item.tunnelId entry.1 entry.2) r
  match requested.getLast? with
  | none => r
  | some (hash, info) =>
      if info.service.isSome then
        let vpid := ((r.localTunnels[item.tunnelId]?).getD {}).vpid
        r.callService (.addVirtualPeer info.service hash vpid .server)
      else r

def noteResponse (item : TunnelOkItem) (info : TurtleTunnelRequestInfo) (r : TurtleRouter) :
    TurtleRouter :=
  { r with
    tunnelRequestsOrigins := r.tunnelRequestsOrigins.insert item.requestId {
      info with responses := item.tunnelId :: info.responses } }

/-- A tunnel that is there already stays as it is. -/
def placeTunnel (env : Surroundings) (peerId : PeerId) (item : TunnelOkItem)
    (info : TurtleTunnelRequestInfo) (r : TurtleRouter) : TurtleRouter :=
  if item.tunnelId ∈ r.localTunnels then r
  else { r with
    localTunnels := r.localTunnels.insert item.tunnelId {
      localSrc := info.origin
      localDst := peerId
      timeStamp := env.now % 2 ^ 32 } }

def handleTunnelResult (env : Surroundings) (peerId : PeerId) (item : TunnelOkItem) (r : TurtleRouter) :
    TurtleRouter :=
  match r.tunnelRequestsOrigins[item.requestId]? with
  | none => r
  | some info =>
      if item.tunnelId ∈ info.responses then r
      else
        let r := (r.noteResponse item info).placeTunnel env peerId item info
        if info.origin = r.ownId then r.startTunnel item
        else r.sendItem info.origin (.tunnelOk item)

/-! ### Data -/

/-- `none` is what is dropped. -/
def getTunnelServiceInfo (tid : Nat) (r : TurtleRouter) :
    Option (PeerId × FileHash × Option ServiceId) :=
  match r.localTunnels[tid]? with
  | none => none
  | some tunnel =>
      if tunnel.localSrc = r.ownId then
        (r.incomingFileHashes[tunnel.hash]?).map fun info => (tunnel.vpid, tunnel.hash, info.service)
      else if tunnel.localDst = r.ownId then
        (r.outgoingTunnelClientServices[tid]?).map fun service =>
          (tunnel.vpid, tunnel.hash, some service)
      else none

def handleRecvGenericTunnelItem (item : GenericTunnelItem) (direction : Direction) (r : TurtleRouter) :
    TurtleRouter :=
  match r.getTunnelServiceInfo item.tunnelId with
  | none => r
  | some (vpid, hash, service) =>
      r.callService (.receiveTurtleData service item.data hash vpid direction)

/-- Only some items keep the tunnel from being closed as idle. -/
def stampTunnel (now : Nat) (item : GenericTunnelItem) (tunnel : TurtleTunnel) (r : TurtleRouter) :
    TurtleRouter :=
  if item.shouldStampTunnel then
    { r with
      localTunnels :=
        r.localTunnels.insert item.tunnelId { tunnel with timeStamp := now % 2 ^ 32 } }
  else r

def routeGenericTunnelItem (now : Nat) (peerId : PeerId) (item : GenericTunnelItem) (r : TurtleRouter) :
    TurtleRouter :=
  match r.localTunnels[item.tunnelId]? with
  | none => r
  | some tunnel =>
      let r := r.stampTunnel now item tunnel
      let direction :=
        if peerId = tunnel.localDst then some Direction.client
        else if peerId = tunnel.localSrc then some Direction.server
        else none
      match direction with
      | none => r
      | some direction =>
          if peerId = tunnel.localDst ∧ tunnel.localSrc ≠ r.ownId then
            r.sendItem tunnel.localSrc (.generic item)
          else if peerId = tunnel.localSrc ∧ tunnel.localDst ≠ r.ownId then
            r.sendItem tunnel.localDst (.generic item)
          else r.handleRecvGenericTunnelItem item direction

def sendTurtleData (now : Nat) (virtualPeer : PeerId) (shouldStampTunnel : Bool) (data : List UInt8)
    (r : TurtleRouter) : TurtleRouter :=
  match r.virtualPeers[virtualPeer]? with
  | none => r
  | some tid =>
      match r.localTunnels[tid]? with
      | none => r
      | some tunnel =>
          let item : GenericTunnelItem := ⟨tid, shouldStampTunnel, data⟩
          let r := r.stampTunnel now item tunnel
          if tunnel.localSrc = r.ownId then r.sendItem tunnel.localDst (.generic item)
          else if tunnel.localDst = r.ownId then r.sendItem tunnel.localSrc (.generic item)
          else r

/-! ### Cleaning -/

/-- The loop that takes a tunnel id out of the tunnels of a hash: the last one takes its place. The first
argument is how many are left to look at. -/
def removeTunnelId (tid : Nat) : Nat → List Nat → List Nat
  | 0, tunnels => tunnels
  | _, [] => []
  | n + 1, first :: rest =>
      if first = tid then
        match rest.getLast? with
        | none => []
        | some last => removeTunnelId tid n (last :: rest.dropLast)
      else first :: removeTunnelId tid n rest

/-- The services are called when all is done, in the order of the calls here. -/
def closeStart (tid : Nat) (tunnel : TurtleTunnel) (r : TurtleRouter) : TurtleRouter :=
  let r := { r with virtualPeers := r.virtualPeers.erase tunnel.vpid }
  match r.incomingFileHashes[tunnel.hash]? with
  | none => r
  | some info =>
      let tunnels := removeTunnelId tid info.tunnels.length info.tunnels
      let r := { r with
        incomingFileHashes := r.incomingFileHashes.insert tunnel.hash { info with tunnels } }
      r.callService (.removeVirtualPeer info.service tunnel.hash tunnel.vpid)

def closeEnd (tid : Nat) (tunnel : TurtleTunnel) (r : TurtleRouter) : TurtleRouter :=
  match r.outgoingTunnelClientServices[tid]? with
  | none => r
  | some service =>
      let r := { r with
        outgoingTunnelClientServices := r.outgoingTunnelClientServices.erase tid
        virtualPeers := r.virtualPeers.erase tunnel.vpid }
      r.callService (.removeVirtualPeer (some service) tunnel.hash tunnel.vpid)

/-- `locked_closeTunnel` -/
def closeTunnel (r : TurtleRouter) (tid : Nat) : TurtleRouter :=
  match r.localTunnels[tid]? with
  | none => r
  | some tunnel =>
      let r :=
        if tunnel.localSrc = r.ownId then r.closeStart tid tunnel
        else if tunnel.localDst = r.ownId then r.closeEnd tid tunnel
        else r
      { r with localTunnels := r.localTunnels.erase tid }

/-- A hash that is not monitored any more goes with its tunnels. -/
def removeHash (r : TurtleRouter) (hash : FileHash) : TurtleRouter :=
  match r.incomingFileHashes[hash]? with
  | none => r
  | some info =>
      let r := info.tunnels.foldl closeTunnel r
      { r with incomingFileHashes := r.incomingFileHashes.erase hash }

def removeHashes (r : TurtleRouter) : TurtleRouter :=
  { (r.hashesToRemove.toList.map Prod.fst).foldl removeHash r with hashesToRemove := ∅ }

def forgetRequests (now : Nat) (r : TurtleRouter) : TurtleRouter :=
  { r with
    tunnelRequestsOrigins := r.tunnelRequestsOrigins.filter fun _ info =>
      !decide (now > info.timeStamp + tunnelRequestsLifeTime) }

def closeIdle (now : Nat) (r : TurtleRouter) : TurtleRouter :=
  ((r.localTunnels.toList.filter fun entry =>
    decide (now > entry.2.timeStamp + maximumTunnelIdleTime)).map Prod.fst).foldl closeTunnel r

/-- `autoWash` on what belongs to tunnels. -/
def autoWash (now : Nat) (r : TurtleRouter) : TurtleRouter :=
  closeIdle now (forgetRequests now (removeHashes r))

/-- `handleIncoming` on one item. -/
def handleIncoming (env : Surroundings) (peerId : PeerId) (item : TurtleItem) (r : TurtleRouter) :
    TurtleRouter :=
  match item with
  | .openTunnel item => r.handleTunnelRequest env peerId item
  | .tunnelOk item => r.handleTunnelResult env peerId item
  | .generic item => r.routeGenericTunnelItem env.now peerId item

end TurtleRouter

/-! ### The network -/

structure Message where
  source : PeerId
  target : PeerId
  item : TurtleItem

/-- All routers, and the items between them, which may overtake each other and get lost. What the
services have been called with and what they have given to be sent is written down. -/
structure Network where
  routers : PeerId → TurtleRouter
  inFlight : List Message := []
  requestIds : List Nat := []
  given : List (PeerId × PeerId × List UInt8) := []
  calls : List (PeerId × ServiceCall) := []

inductive Op
  | diggTunnel (peer : PeerId) (env : Surroundings) (hash : FileHash) (id : Nat)
  | monitorTunnels (peer : PeerId) (hash : FileHash) (service : ServiceId) (allowMultiTunnels : Bool)
      (draw : Nat)
  | stopMonitoringTunnels (peer : PeerId) (hash : FileHash)
  | autoWash (peer : PeerId) (now : Nat)
  | sendTurtleData (peer : PeerId) (now : Nat) (virtualPeer : PeerId) (shouldStampTunnel : Bool)
      (data : List UInt8)
  | deliver (i : Nat) (env : Surroundings)
  | lose (i : Nat)

namespace Network

/-- One call at one router. -/
def act (peer : PeerId) (call : TurtleRouter → TurtleRouter) (s : Network) : Network :=
  let r := call (s.routers peer)
  { s with
    routers := Function.update s.routers peer { r with sent := [], calls := [] }
    inFlight := s.inFlight ++ r.sent.map fun sent => ⟨peer, sent.1, sent.2⟩
    calls := s.calls ++ r.calls.map (peer, ·) }

def step (s : Network) : Op → Option Network
  | .diggTunnel peer env hash id =>
      some ({ s with requestIds := id :: s.requestIds }.act peer (·.diggTunnel env hash id))
  | .monitorTunnels peer hash service allowMultiTunnels draw =>
      some (s.act peer (·.monitorTunnels hash service allowMultiTunnels draw))
  | .stopMonitoringTunnels peer hash => some (s.act peer (·.stopMonitoringTunnels hash))
  | .autoWash peer now => some (s.act peer (·.autoWash now))
  | .sendTurtleData peer now virtualPeer shouldStampTunnel data =>
      some ({ s with given := s.given ++ [(peer, virtualPeer, data)] }.act peer
        (·.sendTurtleData now virtualPeer shouldStampTunnel data))
  | .deliver i env =>
      (s.inFlight[i]?).map fun message =>
        { s with inFlight := s.inFlight.eraseIdx i }.act message.target
          (·.handleIncoming env message.source message.item)
  | .lose i => some { s with inFlight := s.inFlight.eraseIdx i }

end Network

end RetroShare.Turtle.Tunnels
