import RetroShare.Foundation.OrderedMap
import RetroShare.Foundation.Word
import Mathlib.Data.Nat.Digits.Defs
import Mathlib.Data.List.Lex

/-!
# The GXS tunnel service

`p3GxsTunnelService`: encrypted tunnels between two identities over the turtle router. The router hands
over virtual peers, one for each turtle tunnel; a contact, one for each pair of identities, holds the
key that a Diffie-Hellman exchange over one of the virtual peers agreed on. OpenSSL, the identity keys
and the item serialiser are parameters.
-/

namespace RetroShare.GxsTunnel

abbrev GxsId := { bytes : List UInt8 // bytes.length = 16 }

abbrev TunnelId := { bytes : List UInt8 // bytes.length = 16 }

abbrev VirtualPeerId := { bytes : List UInt8 // bytes.length = 16 }

abbrev FileHash := { bytes : List UInt8 // bytes.length = 20 }

abbrev AesKey := { bytes : List UInt8 // bytes.length = 16 }

abbrev Iv := { bytes : List UInt8 // bytes.length = 8 ∧ bytes ≠ List.replicate 8 0 }

/-- A cleared id, and the key of a contact that has not agreed on one. -/
def zeros : { bytes : List UInt8 // bytes.length = 16 } := ⟨List.replicate 16 0, rfl⟩

inductive Direction
  | unset
  | client
  | server
  deriving DecidableEq

inductive DhStatus
  | uninitialized
  | halfKeyDone
  | keyAvailable
  deriving DecidableEq

inductive TunnelStatus
  | unknown
  | tunnelDn
  | canTalk
  | remotelyClosed
  deriving DecidableEq

/-! ### Items -/

structure RsaPublicKey where
  keyId : GxsId
  keyData : List UInt8
  deriving DecidableEq

structure KeySignature where
  keyId : GxsId
  signData : List UInt8
  deriving DecidableEq

structure DhPublicKeyItem where
  publicKey : Nat
  signature : KeySignature
  gxsKey : RsaPublicKey
  deriving DecidableEq

/-- The items of the service, without the peer id, which is not serialised. -/
inductive Item
  | data (uniqueItemCounter flags serviceId : Nat) (data : List UInt8)
  | dhPublicKey (item : DhPublicKeyItem)
  | status (status : Nat)
  | dataAck (uniqueItemCounter : Nat)
  deriving DecidableEq

def flagClosingDistantConnection : Nat := 0x0400

def flagAckDistantConnection : Nat := 0x0800

def flagKeepAlive : Nat := 0x1000

/-! ### What is linked in -/

/-- OpenSSL, `GxsSecurity`, `RsAES` and the serialiser. `computeKey` is `DH_compute_key`, empty when it
fails. -/
structure Crypto (Secret : Type) where
  publicKey : Secret → Nat
  dhSize : Nat
  computeKey : Secret → Nat → List UInt8
  sha1sum : List UInt8 → FileHash
  checkPublicKey : RsaPublicKey → Bool
  validateSignature : List UInt8 → RsaPublicKey → KeySignature → Bool
  hmac : AesKey → List UInt8 → FileHash
  aesCrypt : AesKey → Iv → List UInt8 → Option (List UInt8)
  aesDecrypt : AesKey → Iv → List UInt8 → Option (List UInt8)
  serialise : Item → Option (List UInt8)
  deserialise : List UInt8 → Option Item

/-- `DH *`: not allocated, allocated without a key pair, or with one. -/
inductive DhHandle (Secret : Type)
  | null
  | noKey
  | key (secret : Secret)
  deriving DecidableEq

/-- What one call reads from outside: the clock, the identities, random numbers, the outcome of
`locked_initDHSessionKey` and the answers of the client services. -/
structure Surroundings (Secret : Type) where
  now : Int
  getOwnIds : List GxsId
  getKey : GxsId → Option RsaPublicKey
  signData : List UInt8 → GxsId → Option KeySignature
  initDhSessionKey : DhHandle Secret
  randomIv : Nat → Iv
  randomBytes : { bytes : List UInt8 // bytes.length = 4 }
  acceptDataFromPeer : Nat → GxsId → TunnelId → Bool → Bool

/-! ### State -/

structure PeerInfo where
  lastContact : Int
  lastKeepAliveSent : Int
  aesKey : AesKey
  status : TunnelStatus
  virtualPeerId : VirtualPeerId
  toGxsId : GxsId
  ownGxsId : GxsId
  direction : Direction
  hash : FileHash
  clientServices : Finset Nat
  receivedDataPrints : OrderedMap Nat Int

structure DhInfo (Secret : Type) where
  dh : DhHandle Secret
  gxsId : GxsId
  ownGxsId : GxsId
  tunnelId : TunnelId
  direction : Direction
  status : DhStatus
  hash : FileHash

structure TunnelData where
  peerId : TunnelId
  item : Item
  lastSendingAttempt : Int

/-- What the service lets others see, and which keys it trusted and used. No step reads it. -/
inductive Event
  | verified (item : DhPublicKeyItem) (key : RsaPublicKey)
  | encrypted (tunnel : TunnelId) (toGxsId : GxsId) (key : AesKey) (item : Item)
  | decrypted (tunnel : TunnelId) (toGxsId : GxsId) (key : AesKey) (data : List UInt8)
  | notifyTunnelStatus (service : Nat) (tunnel : TunnelId) (status : TunnelStatus)
  | receiveData (service : Nat) (tunnel : TunnelId) (data : List UInt8)
  | monitorTunnels (hash : FileHash)
  | stopMonitoringTunnels (hash : FileHash)
  | forceReDiggTunnels (hash : FileHash)

structure Service (Secret : Type) where
  contacts : OrderedMap TunnelId PeerInfo
  virtualPeers : OrderedMap VirtualPeerId (DhInfo Secret)
  pendingDataItems : OrderedMap Nat TunnelData
  pendingItems : List (TunnelId × Item)
  pendingDhItems : List (VirtualPeerId × DhPublicKeyItem)
  currentPacketCounter : Nat
  registeredServices : Finset Nat
  sent : List (VirtualPeerId × List UInt8)
  events : List Event

namespace PeerInfo

def empty : PeerInfo :=
  { lastContact := 0
    lastKeepAliveSent := 0
    aesKey := zeros
    status := .unknown
    virtualPeerId := zeros
    toGxsId := zeros
    ownGxsId := zeros
    direction := .unset
    hash := ⟨List.replicate 20 0, rfl⟩
    clientServices := ∅
    receivedDataPrints := ∅ }

end PeerInfo

namespace DhInfo

def empty {Secret : Type} : DhInfo Secret :=
  { dh := .null
    gxsId := zeros
    ownGxsId := zeros
    tunnelId := zeros
    direction := .unset
    status := .uninitialized
    hash := ⟨List.replicate 20 0, rfl⟩ }

end DhInfo

/-- `BN_bn2bin`. -/
def bn2bin (n : Nat) : List UInt8 := (Nat.digits 256 n).reverse.map UInt8.ofNat

/-- The first sixteen bytes of a hash. -/
def firstSixteen (hash : FileHash) : { bytes : List UInt8 // bytes.length = 16 } :=
  ⟨hash.1.take 16, by rw [List.length_take, hash.2]; rfl⟩

/-- Takes the last 16 bytes. -/
def destinationGxsIdFromHash (hash : FileHash) : GxsId :=
  ⟨hash.1.drop 4, by rw [List.length_drop, hash.2]⟩

def randomHashFromDestinationGxsId (randomBytes : { bytes : List UInt8 // bytes.length = 4 })
    (destination : GxsId) : FileHash :=
  ⟨randomBytes.1 ++ destination.1, by rw [List.length_append, randomBytes.2, destination.2]⟩

/-- Always sorts the ids, so that both ends compute the same id. -/
def makeGxsTunnelId {Secret : Type} (c : Crypto Secret) (ownId distantId : GxsId) : TunnelId :=
  firstSixteen <| c.sha1sum <|
    if ownId < distantId then ownId.1 ++ distantId.1 else distantId.1 ++ ownId.1

namespace Service

variable {Secret : Type}

def initial : Service Secret :=
  { contacts := ∅
    virtualPeers := ∅
    pendingDataItems := ∅
    pendingItems := []
    pendingDhItems := []
    currentPacketCounter := 0
    registeredServices := ∅
    sent := []
    events := [] }

def setContact (s : Service Secret) (tunnel : TunnelId) (info : PeerInfo) : Service Secret :=
  { s with contacts := s.contacts.insert tunnel info }

def setVirtualPeer (s : Service Secret) (peer : VirtualPeerId) (info : DhInfo Secret) :
    Service Secret :=
  { s with virtualPeers := s.virtualPeers.insert peer info }

def pushItem (s : Service Secret) (tunnel : TunnelId) (item : Item) : Service Secret :=
  { s with pendingItems := s.pendingItems ++ [(tunnel, item)] }

def sendTurtleData (s : Service Secret) (peer : VirtualPeerId) (bytes : List UInt8) :
    Service Secret :=
  { s with sent := s.sent ++ [(peer, bytes)] }

def record (s : Service Secret) (events : List Event) : Service Secret :=
  { s with events := s.events ++ events }

/-- The services of a contact that are registered are told of a new status. -/
def notify (s : Service Secret) (tunnel : TunnelId) (info : PeerInfo)
    (notifications : List TunnelStatus) : Service Secret :=
  s.record <| (info.clientServices ∩ s.registeredServices).sort.flatMap fun service =>
    notifications.map fun status => .notifyTunnelStatus service tunnel status

variable (c : Crypto Secret) (env : Surroundings Secret)

/-! ### Key agreement -/

def sendDhPublicKey (s : Service Secret) (secret : Secret) (ownGxsId : GxsId)
    (peer : VirtualPeerId) : Service Secret :=
  let publicKey := c.publicKey secret
  match env.signData (bn2bin publicKey) ownGxsId, env.getKey ownGxsId with
  | some signature, some gxsKey =>
      { s with pendingDhItems := s.pendingDhItems ++ [(peer, { publicKey, signature, gxsKey })] }
  | _, _ => s

def restartDhSession (s : Service Secret) (peer : VirtualPeerId) (ownGxsId : GxsId) :
    Service Secret :=
  let dhinfo := s.virtualPeers[peer]?.getD .empty
  let dhinfo := { dhinfo with status := .uninitialized, ownGxsId, dh := env.initDhSessionKey }
  match env.initDhSessionKey with
  | .key secret =>
      sendDhPublicKey c env (s.setVirtualPeer peer { dhinfo with status := .halfKeyDone }) secret
        ownGxsId peer
  | _ => s.setVirtualPeer peer dhinfo

def addVirtualPeer (s : Service Secret) (hash : FileHash) (peer : VirtualPeerId)
    (dir : Direction) : Service Secret :=
  let dhinfo := s.virtualPeers[peer]?.getD .empty
  let s := s.setVirtualPeer peer
    { dhinfo with
      gxsId := zeros
      dh := .null
      direction := dir
      hash
      status := .uninitialized
      tunnelId := zeros }
  if dir = .client then
    restartDhSession c env s peer (destinationGxsIdFromHash hash)
  else
    match s.contacts.toList.find? (·.2.hash = hash) with
    | none => s
    | some (_, contact) =>
        -- a virtual peer for a tunnel that works already is given up, its entry stays
        if contact.status = .canTalk then s else restartDhSession c env s peer contact.ownGxsId

def removeVirtualPeer (s : Service Secret) (peer : VirtualPeerId) : Service Secret :=
  match s.virtualPeers[peer]? with
  | none => s
  | some dhinfo =>
      let s := { s with virtualPeers := s.virtualPeers.erase peer }
      match s.contacts[dhinfo.tunnelId]? with
      | none => s
      | some contact =>
          if contact.virtualPeerId = peer then
            (s.setContact dhinfo.tunnelId
              { contact with status := .tunnelDn, virtualPeerId := zeros }).notify dhinfo.tunnelId
                contact [.tunnelDn]
          else s

/-- The key of the signer: the one in the keyring, else the one that came along if it is the one the
signature names. -/
def signatureKey (item : DhPublicKeyItem) : Option RsaPublicKey :=
  match (env.getKey item.signature.keyId).filter (fun key => key.keyData ≠ []) with
  | some key => some key
  | none =>
      if c.checkPublicKey item.gxsKey ∧ item.gxsKey.keyId = item.signature.keyId then
        some item.gxsKey
      else none

/-- The end of `handleRecvDHPublicKey`: the virtual peer is linked to its tunnel before the key is
computed, and stays linked when that fails. -/
def agreeOnKey (s : Service Secret) (peer : VirtualPeerId) (item : DhPublicKeyItem) :
    Option (Service Secret) :=
  match s.virtualPeers[peer]? with
  | none => none
  | some dhinfo =>
      let sendersId := item.signature.keyId
      let tunnelId := makeGxsTunnelId c dhinfo.ownGxsId sendersId
      let dhinfo := { dhinfo with tunnelId, gxsId := sendersId }
      match dhinfo.dh with
      | .null => none
      | .noKey => some (s.setVirtualPeer peer dhinfo)
      | .key secret =>
          let keyBuff := c.computeKey secret item.publicKey
          if keyBuff.length ≠ c.dhSize then some (s.setVirtualPeer peer dhinfo)
          else
            let contact := s.contacts[tunnelId]?.getD .empty
            some <|
              ((s.setVirtualPeer peer { dhinfo with status := .keyAvailable }).setContact tunnelId
                { contact with
                  aesKey := firstSixteen (c.sha1sum keyBuff)
                  lastContact := env.now
                  lastKeepAliveSent := env.now
                  status := .canTalk
                  virtualPeerId := peer
                  direction := dhinfo.direction
                  ownGxsId := dhinfo.ownGxsId
                  toGxsId := sendersId }).pushItem tunnelId (.status flagAckDistantConnection)

def handleRecvDhPublicKey (s : Service Secret) (peer : VirtualPeerId) (item : DhPublicKeyItem) :
    Option (Service Secret) :=
  match s.virtualPeers[peer]? with
  | none => some s
  | some dhinfo =>
      match signatureKey c env item with
      | none => some s
      | some key =>
          if ¬ c.validateSignature (bn2bin item.publicKey) key item.signature then some s
          else
            let s := s.record [.verified item key]
            match dhinfo.dh with
            | .null => some s
            | _ =>
                let s := if dhinfo.status = .keyAvailable then
                  restartDhSession c env s peer dhinfo.ownGxsId else s
                agreeOnKey c env s peer item

/-! ### Sending -/

/-- In clear, with a zero IV. -/
def sendClearTunnelData (s : Service Secret) (peer : VirtualPeerId) (item : DhPublicKeyItem) :
    Bool × Service Secret :=
  match c.serialise (.dhPublicKey item) with
  | none => (false, s)
  | some bytes => (true, s.sendTurtleData peer (List.replicate 8 0 ++ bytes))

def sendEncryptedTunnelData (s : Service Secret) (tunnel : TunnelId) (item : Item) :
    Bool × Service Secret :=
  match c.serialise item with
  | none => (false, s)
  | some buff =>
      match s.contacts[tunnel]? with
      | none => (false, s)
      | some contact =>
          if contact.status ≠ .canTalk then (false, s)
          else
            let iv := env.randomIv s.sent.length
            match c.aesCrypt contact.aesKey iv buff with
            | none => (false, s)
            | some encrypted =>
                (true, (s.record
                  [.encrypted tunnel contact.toGxsId contact.aesKey item]).sendTurtleData
                    contact.virtualPeerId (iv.1 ++ (c.hmac contact.aesKey encrypted).1 ++ encrypted))

/-- An item that could be sent leaves the queue, another goes back to it. -/
def flushDhItem (s : Service Secret) (entry : VirtualPeerId × DhPublicKeyItem) : Service Secret :=
  match sendClearTunnelData c s entry.1 entry.2 with
  | (true, s) => s
  | (false, s) => { s with pendingDhItems := s.pendingDhItems ++ [entry] }

def flushDhItems (s : Service Secret) : Service Secret :=
  s.pendingDhItems.foldl (flushDhItem c) { s with pendingDhItems := [] }

def flushItem (s : Service Secret) (entry : TunnelId × Item) : Service Secret :=
  match sendEncryptedTunnelData c env s entry.1 entry.2 with
  | (true, s) => s
  | (false, s) => { s with pendingItems := s.pendingItems ++ [entry] }

def flushItems (s : Service Secret) : Service Secret :=
  s.pendingItems.foldl (flushItem c env) { s with pendingItems := [] }

def delayBetweenResend : Int := 10

def resendDataItem (s : Service Secret) (entry : Nat × TunnelData) : Service Secret :=
  if env.now > delayBetweenResend + entry.2.lastSendingAttempt then
    match sendEncryptedTunnelData c env s entry.2.peerId entry.2.item with
    | (true, s) =>
        { s with
          pendingDataItems := s.pendingDataItems.insert entry.1
            { entry.2 with lastSendingAttempt := env.now } }
    | (false, s) => s
  else s

def flushDataItems (s : Service Secret) : Service Secret :=
  s.pendingDataItems.toList.foldl (resendDataItem c env) s

def keepAliveTimeout : Int := 6

def dataPrintStorageDelay : Int := 600

/-- Nothing came out of the tunnel for a while: it is marked down. -/
def dropInterrupted (contact : PeerInfo) : PeerInfo :=
  if contact.lastContact + 20 + keepAliveTimeout < env.now ∧ contact.status = .canTalk then
    { contact with status := .tunnelDn, virtualPeerId := zeros }
  else contact

/-- The managing side also asks the router for a new tunnel at once. -/
def reDiggHashes (contact : PeerInfo) : List FileHash :=
  if (contact.lastContact + 20 + keepAliveTimeout < env.now ∧ contact.status = .canTalk) ∧
      contact.direction = .server then
    [randomHashFromDestinationGxsId env.randomBytes contact.toGxsId]
  else []

def KeepAliveDue (contact : PeerInfo) : Prop :=
  contact.lastKeepAliveSent + keepAliveTimeout < env.now ∧ contact.status = .canTalk

instance (contact : PeerInfo) : Decidable (KeepAliveDue env contact) :=
  inferInstanceAs (Decidable (_ ∧ _))

def stampKeepAlive (contact : PeerInfo) : PeerInfo :=
  if KeepAliveDue env contact then { contact with lastKeepAliveSent := env.now } else contact

def cleanDataPrints (contact : PeerInfo) : PeerInfo :=
  { contact with
    receivedDataPrints := contact.receivedDataPrints.filter fun _ received =>
      env.now ≤ received + dataPrintStorageDelay }

/-- The pass of `flush` over one contact. -/
def flushContact (s : Service Secret) (entry : TunnelId × PeerInfo) : Service Secret :=
  let (tunnel, contact) := entry
  if contact.status = .remotelyClosed ∧ contact.lastContact + 20 < env.now then
    { s with contacts := s.contacts.erase tunnel }
  else
    let s := s.record ((reDiggHashes env contact).map .forceReDiggTunnels)
    let contact := dropInterrupted env contact
    let keepAlives :=
      if KeepAliveDue env contact then [(tunnel, Item.status flagKeepAlive)] else []
    { s.setContact tunnel (cleanDataPrints env (stampKeepAlive env contact)) with
      pendingItems := s.pendingItems ++ keepAlives }

def flush (s : Service Secret) : Service Secret :=
  let s := flushDataItems c env (flushItems c env (flushDhItems c s))
  s.contacts.toList.foldl (flushContact env) s

/-! ### Incoming items -/

/-- The tunnel the acknowledgement came through is not looked at. -/
def handleRecvTunnelDataAckItem (s : Service Secret) (uniqueItemCounter : Nat) : Service Secret :=
  { s with pendingDataItems := s.pendingDataItems.erase uniqueItemCounter }

def handleRecvTunnelDataItem (s : Service Secret) (tunnel : TunnelId)
    (uniqueItemCounter serviceId : Nat) (data : List UInt8) : Option (Service Secret) :=
  let s := s.pushItem tunnel (.dataAck uniqueItemCounter)
  if serviceId ∉ s.registeredServices then some s
  else
    match s.contacts[tunnel]? with
    | none => none
    | some contact =>
        let contact := { contact with clientServices := insert serviceId contact.clientServices }
        if uniqueItemCounter ∈ contact.receivedDataPrints then some (s.setContact tunnel contact)
        else
          let s := s.setContact tunnel
            { contact with
              receivedDataPrints := contact.receivedDataPrints.insert uniqueItemCounter env.now }
          if env.acceptDataFromPeer serviceId contact.toGxsId tunnel (contact.direction = .client) then
            some (s.record [.receiveData serviceId tunnel data])
          else some s

def handleRecvStatusItem (s : Service Secret) (tunnel : TunnelId) (status : Nat) :
    Option (Service Secret) :=
  if status = flagClosingDistantConnection then
    match s.contacts[tunnel]? with
    | none => some s
    | some contact =>
        let closed := if contact.direction = .client then .remotelyClosed else .tunnelDn
        some ((s.setContact tunnel { contact with status := closed }).notify tunnel contact
          [.remotelyClosed])
  else if status = flagAckDistantConnection then
    match s.contacts[tunnel]? with
    | none => none
    | some contact => some (s.notify tunnel contact [.canTalk])
  else some s

def handleIncomingItem (s : Service Secret) (tunnel : TunnelId) (item : Item) :
    Option (Service Secret) :=
  match item with
  | .data uniqueItemCounter _ serviceId data =>
      handleRecvTunnelDataItem env s tunnel uniqueItemCounter serviceId data
  | .dataAck uniqueItemCounter => some (handleRecvTunnelDataAckItem s uniqueItemCounter)
  | .status status => handleRecvStatusItem s tunnel status
  | .dhPublicKey _ => some s

/-- What the packet says under a key: nothing when the authentication code or the padding is wrong. -/
def openPacket (key : AesKey) (iv : Iv) (bytes : List UInt8) : Option (List UInt8) :=
  let encrypted := bytes.drop 28
  if (c.hmac key encrypted).1 = (bytes.drop 8).take 20 then c.aesDecrypt key iv encrypted else none

/-- A packet that opened shows that its tunnel works. -/
def raiseContact (s : Service Secret) (tunnel : TunnelId) (contact : PeerInfo) : Service Secret :=
  s.setContact tunnel { contact with status := .canTalk, lastContact := env.now }

/-- A packet too short for its authentication code makes the size of the encrypted part wrap. Below 13
bytes the buffer for that size is refused, from there on the program reads beyond the packet. -/
def handleEncryptedData (s : Service Secret) (iv : Iv) (bytes : List UInt8) (peer : VirtualPeerId) :
    Option (Service Secret) :=
  match s.virtualPeers[peer]? with
  | none => some s
  | some dhinfo =>
      match s.contacts[dhinfo.tunnelId]? with
      | none => some s
      | some contact =>
          if bytes.length < 13 then some s
          else if bytes.length < 28 then none
          else
            match openPacket c contact.aesKey iv bytes with
            | none => some (restartDhSession c env s peer contact.ownGxsId)
            | some data =>
                let s := (raiseContact env s dhinfo.tunnelId contact).record
                  [.decrypted dhinfo.tunnelId contact.toGxsId contact.aesKey data]
                match c.deserialise data with
                | none => some s
                | some item => handleIncomingItem env s dhinfo.tunnelId item

def receiveTurtleData (s : Service Secret) (bytes : List UInt8) (peer : VirtualPeerId) :
    Option (Service Secret) :=
  if hsize : bytes.length < 8 then some s
  else if hiv : bytes.take 8 ≠ List.replicate 8 0 then
    handleEncryptedData c env s
      ⟨bytes.take 8, by rw [List.length_take]; omega, hiv⟩ bytes peer
  else
    match c.deserialise (bytes.drop 8) with
    | some (.dhPublicKey item) => handleRecvDhPublicKey c env s peer item
    | _ => some s

/-! ### Calls of the client services -/

def registerClientService (s : Service Secret) (serviceId : Nat) : Service Secret :=
  { s with registeredServices := insert serviceId s.registeredServices }

def startClientGxsTunnelConnection (s : Service Secret) (toGxsId fromGxsId : GxsId)
    (serviceId : Nat) : Service Secret :=
  let hash := randomHashFromDestinationGxsId env.randomBytes toGxsId
  let tunnel := makeGxsTunnelId c fromGxsId toGxsId
  match s.contacts[tunnel]? with
  | some _ => s
  | none =>
      (s.setContact tunnel
        { lastContact := env.now
          lastKeepAliveSent := env.now
          aesKey := zeros
          status := .tunnelDn
          virtualPeerId := zeros
          toGxsId
          ownGxsId := fromGxsId
          direction := .server
          hash
          clientServices := {serviceId}
          receivedDataPrints := ∅ }).record [.monitorTunnels hash]

def requestSecuredTunnel (s : Service Secret) (toGxsId fromGxsId : GxsId) (serviceId : Nat) :
    Service Secret :=
  if fromGxsId ∈ env.getOwnIds then startClientGxsTunnelConnection c env s toGxsId fromGxsId serviceId
  else s

def sendData (s : Service Secret) (tunnel : TunnelId) (serviceId : Nat) (data : List UInt8) :
    Service Secret :=
  match s.contacts[tunnel]? with
  | none => s
  | some _ =>
      if serviceId ∉ s.registeredServices then s
      else
        let uniqueItemCounter := s.currentPacketCounter
        { s with
          currentPacketCounter := Word.add 64 uniqueItemCounter 1
          pendingDataItems := s.pendingDataItems.insert uniqueItemCounter
            { peerId := tunnel
              item := .data uniqueItemCounter 0 serviceId data
              lastSendingAttempt := 0 } }

def closeExistingTunnel (s : Service Secret) (tunnel : TunnelId) (serviceId : Nat) :
    Service Secret :=
  match s.contacts[tunnel]? with
  | none => s
  | some contact =>
      let hash := match s.virtualPeers[contact.virtualPeerId]? with
        | some dhinfo => dhinfo.hash
        | none => contact.hash
      if serviceId ∉ contact.clientServices then s
      else
        let clientServices := contact.clientServices.erase serviceId
        let s := s.setContact tunnel { contact with clientServices }
        if clientServices ≠ ∅ then s
        else
          let s := (sendEncryptedTunnelData c env s tunnel
            (.status flagClosingDistantConnection)).2
          let s := if contact.direction = .server then
            s.record [.stopMonitoringTunnels hash] else s
          { s with contacts := s.contacts.erase tunnel }

/-! ### Steps -/

inductive Op (Secret : Type)
  | registerClientService (serviceId : Nat)
  | requestSecuredTunnel (env : Surroundings Secret) (toGxsId fromGxsId : GxsId) (serviceId : Nat)
  | closeExistingTunnel (env : Surroundings Secret) (tunnel : TunnelId) (serviceId : Nat)
  | sendData (tunnel : TunnelId) (serviceId : Nat) (data : List UInt8)
  | addVirtualPeer (env : Surroundings Secret) (hash : FileHash) (peer : VirtualPeerId)
      (dir : Direction)
  | removeVirtualPeer (peer : VirtualPeerId)
  | receiveTurtleData (env : Surroundings Secret) (bytes : List UInt8) (peer : VirtualPeerId)
  | flush (env : Surroundings Secret)

def step (s : Service Secret) : Op Secret → Option (Service Secret)
  | .registerClientService serviceId => some (s.registerClientService serviceId)
  | .requestSecuredTunnel env toGxsId fromGxsId serviceId =>
      some (s.requestSecuredTunnel c env toGxsId fromGxsId serviceId)
  | .closeExistingTunnel env tunnel serviceId => some (s.closeExistingTunnel c env tunnel serviceId)
  | .sendData tunnel serviceId data => some (s.sendData tunnel serviceId data)
  | .addVirtualPeer env hash peer dir => some (s.addVirtualPeer c env hash peer dir)
  | .removeVirtualPeer peer => some (s.removeVirtualPeer peer)
  | .receiveTurtleData env bytes peer => s.receiveTurtleData c env bytes peer
  | .flush env => some (s.flush c env)

end Service

end RetroShare.GxsTunnel
