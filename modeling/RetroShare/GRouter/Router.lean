import RetroShare.Foundation.OrderedMap
import RetroShare.Foundation.Bytes
import RetroShare.Foundation.Word
import Mathlib.Data.List.Lex

/-!
# The global router

`p3GRouter` carries messages between identities that need not be online at the same time. Every node on
the way keeps a message under its routing id, and the destination answers with a signed receipt that
takes the same way back. Cryptography, the identity service, the turtle router, the routing matrix and
the client services are parameters; what tunnels do to a message is part of what the node sends to.
-/

namespace RetroShare.GRouter

open Bytes

abbrev GxsId := { bytes : List UInt8 // bytes.length = 16 }

abbrev PeerId := { bytes : List UInt8 // bytes.length = 16 }

abbrev Sha1CheckSum := { bytes : List UInt8 // bytes.length = 20 }

structure KeySignature where
  keyId : GxsId
  signData : List UInt8
  deriving DecidableEq

structure GenericDataItem where
  peerId : PeerId
  routingId : Nat
  destinationKey : GxsId
  serviceId : Nat
  signature : KeySignature
  flags : Nat
  dataBytes : List UInt8
  duplicationFactor : Nat
  deriving DecidableEq

structure SignedReceiptItem where
  peerId : PeerId
  routingId : Nat
  destinationKey : GxsId
  serviceId : Nat
  signature : KeySignature
  flags : Nat
  dataHash : Sha1CheckSum
  deriving DecidableEq

def flagEncrypted : Nat := 0x0001

def maxDestinationKeepTime : Int := 20 * 86400

def maxReceiptKeepTime : Int := 20 * 86400

def itemMaxCacheKeepTime : Int := 2 * 86400

def maxDelayForResend : Int := 2 * 86400 + 300

def maxTransactionAckWaitingTime : Int := 60

def directFriendTryDelay : Int := 20

def maxDataSize : Nat := 2 * 1024 * 1024

def maxDuplicationFactor : Nat := 10

/-- What is signed of a data item: neither the flags nor the duplication factor. -/
def GenericDataItem.signedBytes (item : GenericDataItem) : List UInt8 :=
  bigEndian 8 item.routingId ++ item.destinationKey.1 ++ bigEndian 4 item.serviceId ++
    bigEndian 4 item.dataBytes.length ++ item.dataBytes

def SignedReceiptItem.signedBytes (item : SignedReceiptItem) : List UInt8 :=
  bigEndian 8 item.routingId ++ bigEndian 4 item.flags ++ item.destinationKey.1 ++
    bigEndian 4 item.serviceId ++ item.dataHash.1

/-! ### What is linked in -/

inductive GixsError
  | noError
  | unknown
  | keyNotAvailable
  | signatureMismatch
  deriving DecidableEq

/-- `GxsSecurity` and `RsDirUtil`. The keys of an identity are determined by its id, and
`signatureTlv` is how a signature is serialised. -/
structure Crypto where
  sha1sum : List UInt8 → Sha1CheckSum
  signatureTlv : KeySignature → List UInt8
  validateSignature : List UInt8 → KeySignature → Bool
  decrypt : GxsId → List UInt8 → Option (List UInt8)

/-- What one call reads from outside. `staleError` and `uninitialisedServiceId` are the values of
variables that the program reads before it sets them. -/
structure Surroundings where
  now : Int
  locallyNegative : GxsId → Bool
  keyAvailable : GxsId → Bool
  privateKeyAvailable : GxsId → Bool
  signData : List UInt8 → GxsId → Option KeySignature
  encryptData : List UInt8 → GxsId → Option (List UInt8)
  acceptDataFromPeer : Nat → GxsId → Bool
  isTurtlePeer : PeerId → Bool
  isPeerConnected : PeerId → Bool
  availableTunnels : Sha1CheckSum → Nat → List (PeerId × Nat)
  availableFriends : GxsId → List PeerId → Nat → List (PeerId × Nat)
  randomId : Nat
  staleError : GixsError
  uninitialisedServiceId : Nat

/-! ### State -/

inductive DataStatus
  | pending
  | sent
  | receiptOk
  | ongoing
  | done
  deriving DecidableEq

inductive ClientStatus
  | received
  | failed
  deriving DecidableEq

structure RoutingFlags where
  allowTunnels : Bool
  allowFriends : Bool
  isOrigin : Bool
  isDestination : Bool
  deriving DecidableEq

/-- A payload that was handed to its client service, with the item it came in. -/
structure HandOver where
  item : GenericDataItem
  data : List UInt8
  deriving DecidableEq

/-- What is kept of a message. `handOvers` is not in the program: it is what the client service was
given of the message since the entry exists. -/
structure RoutingInfo where
  dataStatus : DataStatus
  receivedTime : Int
  lastSent : Int
  dataTransaction : Int
  clientId : Nat
  tunnelHash : Sha1CheckSum
  routingFlags : RoutingFlags
  dataItem : GenericDataItem
  receiptItem : Option SignedReceiptItem
  incomingRoutes : List PeerId
  itemHash : Sha1CheckSum
  handOvers : List HandOver

/-- What the router does to the outside. A receipt is sent from an entry; the event keeps whether the
node was the destination of the message, and what its client service had been given. -/
inductive Event
  | decryptDataItem (item : GenericDataItem)
  | receiveGRouterData (destinationKey signer : GxsId) (serviceId : Nat) (data : List UInt8)
  | notifyDataStatus (id : Nat) (signer : GxsId) (status : ClientStatus)
  | sendToPeer (peer : PeerId) (item : GenericDataItem)
  | sendReceipt (peer : PeerId) (receipt : SignedReceiptItem) (isDestination : Bool)
      (handOvers : List HandOver)

/-- `acceptedReceipts` is not in the program: the receipts that set a message of this node to done. -/
structure Router where
  registeredServices : Finset Nat
  ownedKeyIds : OrderedMap Sha1CheckSum (GxsId × Nat)
  pendingMessages : OrderedMap Nat RoutingInfo
  saved : OrderedMap Nat RoutingInfo
  aborted : Bool
  events : List Event
  acceptedReceipts : List (RoutingInfo × SignedReceiptItem)

namespace Router

def initial : Router :=
  { registeredServices := ∅
    ownedKeyIds := ∅
    pendingMessages := ∅
    saved := ∅
    aborted := false
    events := []
    acceptedReceipts := [] }

def record (s : Router) (events : List Event) : Router :=
  { s with events := s.events ++ events }

def setPending (s : Router) (id : Nat) (info : RoutingInfo) : Router :=
  { s with pendingMessages := s.pendingMessages.insert id info }

variable (c : Crypto) (env : Surroundings)

/-- Only the low sixteen bits of the service are hashed. -/
def makeTunnelHash (destination : GxsId) (client : Nat) : Sha1CheckSum :=
  c.sha1sum (destination.1 ++ [0, 0, UInt8.ofNat (client / 2 ^ 8), UInt8.ofNat client])

def computeDataItemHash (item : GenericDataItem) : Sha1CheckSum :=
  c.sha1sum (item.signedBytes ++ c.signatureTlv item.signature)

/-! ### Signatures and encryption -/

/-- A banned identity leaves the error as it was. -/
def verifySignedDataItem (bytes : List UInt8) (signature : KeySignature) : Except GixsError Unit :=
  if env.locallyNegative signature.keyId then .error env.staleError
  else if ¬ env.keyAvailable signature.keyId then .error .keyNotAvailable
  else if c.validateSignature bytes signature then .ok ()
  else .error .signatureMismatch

def signDataItem (bytes : List UInt8) (signingId : GxsId) : Option KeySignature := do
  let signature ← env.signData bytes signingId
  match verifySignedDataItem c env bytes signature with
  | .ok _ => some signature
  | .error _ => none

/-- The key of the destination opens the data; the assertion on the flags comes before. -/
def decryptData (item : GenericDataItem) : Option (List UInt8) :=
  if env.privateKeyAvailable item.destinationKey then c.decrypt item.destinationKey item.dataBytes
  else none

/-! ### Messages of this node -/

def registerClientService (s : Router) (id : Nat) : Router :=
  { s with registeredServices := insert id s.registeredServices }

def registerKey (s : Router) (key : GxsId) (client : Nat) : Router :=
  if client ∉ s.registeredServices then s
  else { s with ownedKeyIds := s.ownedKeyIds.insert (makeTunnelHash c key client) (key, client) }

def unregisterKey (s : Router) (key : GxsId) (client : Nat) : Router :=
  { s with ownedKeyIds := s.ownedKeyIds.erase (makeTunnelHash c key client) }

def cancel (s : Router) (id : Nat) : Router :=
  { s with pendingMessages := s.pendingMessages.erase id }

/-- The routing id is drawn until it is not in use. The data is encrypted first and then signed. -/
def sendData (s : Router) (peerId : PeerId) (destination : GxsId) (client : Nat)
    (data : List UInt8) (signingId : GxsId) : Option Router :=
  if data.length > maxDataSize then some s
  else if env.randomId ∈ s.pendingMessages then none
  else
    match env.encryptData data destination with
    | none => some s
    | some encrypted =>
        let item : GenericDataItem :=
          { peerId
            routingId := env.randomId
            destinationKey := destination
            serviceId := client
            signature := { keyId := signingId, signData := [] }
            flags := flagEncrypted
            dataBytes := encrypted
            duplicationFactor := maxDuplicationFactor }
        match signDataItem c env item.signedBytes signingId with
        | none => some s
        | some signature =>
            let item := { item with signature }
            some <| s.setPending env.randomId
              { dataStatus := .pending
                receivedTime := env.now
                lastSent := 0
                dataTransaction := 0
                clientId := client
                tunnelHash := makeTunnelHash c destination client
                routingFlags :=
                  { allowTunnels := false, allowFriends := true, isOrigin := true,
                    isDestination := false }
                dataItem := item
                receiptItem := none
                incomingRoutes := []
                itemHash := computeDataItemHash c item
                handOvers := [] }

/-! ### Items that come in -/

/-- The receipt of a destination; its service id is never set. -/
def createReceipt (item : GenericDataItem) (itemHash : Sha1CheckSum) : Option SignedReceiptItem :=
  match verifySignedDataItem c env item.signedBytes item.signature with
  | .error _ => none
  | .ok _ => do
      let receipt : SignedReceiptItem :=
        { peerId := item.peerId
          routingId := item.routingId
          destinationKey := item.signature.keyId
          serviceId := env.uninitialisedServiceId
          signature := item.signature
          flags := 0
          dataHash := itemHash }
      let signature ← signDataItem c env receipt.signedBytes item.destinationKey
      some { receipt with signature }

/-- The entry of a new message, and what differs at its destination: the data is not kept. -/
def newInfo (item : GenericDataItem) (itemHash : Sha1CheckSum) : RoutingInfo :=
  { dataStatus := .pending
    receivedTime := env.now
    lastSent := 0
    dataTransaction := 0
    clientId := item.serviceId
    tunnelHash := makeTunnelHash c item.destinationKey item.serviceId
    routingFlags :=
      { allowTunnels := false, allowFriends := true, isOrigin := false, isDestination := false }
    dataItem := item
    receiptItem := none
    incomingRoutes := [item.peerId]
    itemHash
    handOvers := [] }

def newInfoAtDestination (item : GenericDataItem) (itemHash : Sha1CheckSum)
    (receipt : SignedReceiptItem) : RoutingInfo :=
  { newInfo c env item itemHash with
    dataStatus := .receiptOk
    routingFlags :=
      { allowTunnels := false, allowFriends := true, isOrigin := false, isDestination := true }
    dataItem := { item with dataBytes := [] }
    receiptItem := some receipt }

/-- Step D: the entry and its receipt are stored already. The assertion of `decryptDataItem` ends the
program. -/
def decryptAndNotify (s : Router) (item : GenericDataItem) (info : RoutingInfo) : Router :=
  let s := s.record [.decryptDataItem item]
  if item.flags &&& flagEncrypted = 0 then { s with aborted := true }
  else
    match decryptData c env item with
    | none => s
    | some data =>
        if env.acceptDataFromPeer item.serviceId item.signature.keyId then
          (s.record [.receiveGRouterData item.destinationKey item.signature.keyId item.serviceId data])
            |>.setPending item.routingId { info with handOvers := info.handOvers ++ [⟨item, data⟩] }
        else s

def handleIncomingDataItem (s : Router) (item : GenericDataItem) : Router :=
  let itemHash := computeDataItemHash c item
  if item.serviceId ∉ s.registeredServices then s
  else
    match s.pendingMessages[item.routingId]? with
    | some info =>
        if info.itemHash ≠ itemHash then s
        else
          s.setPending item.routingId
            { info with incomingRoutes := info.incomingRoutes.insert item.peerId }
    | none =>
        if makeTunnelHash c item.destinationKey item.serviceId ∈ s.ownedKeyIds then
          match createReceipt c env item itemHash with
          | none => s
          | some receipt =>
              let info := newInfoAtDestination c env item itemHash receipt
              decryptAndNotify c env (s.setPending item.routingId info) item info
        else s.setPending item.routingId (newInfo c env item itemHash)

/-- Away from the origin, a receipt that cannot be checked for want of the key is believed. -/
def Believed (receipt : SignedReceiptItem) (isOrigin : Bool) : Prop :=
  match verifySignedDataItem c env receipt.signedBytes receipt.signature with
  | .ok _ => True
  | .error error => isOrigin = false ∧ error = .keyNotAvailable

instance (receipt : SignedReceiptItem) (isOrigin : Bool) :
    Decidable (Believed c env receipt isOrigin) := by
  unfold Believed
  split <;> infer_instance

/-- The signer that the client is told is the one of the message. -/
def handleIncomingReceiptItem (s : Router) (receipt : SignedReceiptItem) : Router :=
  match s.pendingMessages[receipt.routingId]? with
  | none => s
  | some info =>
      if receipt.dataHash ≠ info.itemHash then s
      else if ¬ Believed c env receipt info.routingFlags.isOrigin then s
      else if info.routingFlags.isOrigin then
        let s := s.setPending receipt.routingId { info with dataStatus := .done }
        let s := { s with acceptedReceipts := s.acceptedReceipts ++ [(info, receipt)] }
        if info.clientId ∈ s.registeredServices ∧ receipt.routingId ≠ 0 then
          s.record [.notifyDataStatus receipt.routingId info.dataItem.signature.keyId .received]
        else s
      else
        s.setPending receipt.routingId
          { info with dataStatus := .receiptOk, receiptItem := some receipt }

def handleLowLevelTransactionAckItem (s : Router) (id : Nat) : Router :=
  match s.pendingMessages[id]? with
  | none => s
  | some info =>
      if info.dataStatus = .ongoing then
        s.setPending id { info with dataStatus := .sent, lastSent := env.now }
      else s

/-! ### The tick -/

def sendEvents (item : GenericDataItem) (peers : List (PeerId × Nat)) : List Event :=
  peers.map fun (peer, factor) => .sendToPeer peer { item with duplicationFactor := factor }

def collectTunnels (info : RoutingInfo) : List (PeerId × Nat) :=
  if info.routingFlags.allowTunnels then
    env.availableTunnels info.tunnelHash info.dataItem.duplicationFactor
  else []

def collectFriends (info : RoutingInfo) : List (PeerId × Nat) :=
  if info.routingFlags.allowFriends then
    env.availableFriends info.dataItem.destinationKey info.incomingRoutes
      info.dataItem.duplicationFactor
  else []

/-- The data of an entry that is pending and has no tunnel goes to friends. -/
def routePending (info : RoutingInfo) : RoutingInfo × List Event :=
  if collectFriends env info ≠ [] then
    ({ info with dataStatus := .ongoing, dataTransaction := env.now },
      sendEvents info.dataItem (collectFriends env info))
  else if info.receivedTime + directFriendTryDelay < env.now ∧ ¬ info.routingFlags.allowTunnels then
    ({ info with routingFlags := { info.routingFlags with allowTunnels := true } }, [])
  else (info, [])

/-- The receipt goes back to every route that is there, which is then forgotten. -/
def routeReceipt (info : RoutingInfo) : RoutingInfo × List Event :=
  match info.receiptItem with
  | none => (info, [])
  | some receipt =>
      if info.incomingRoutes = [] then (info, [])
      else
        let (reached, left) :=
          info.incomingRoutes.partition fun peer => env.isPeerConnected peer || env.isTurtlePeer peer
        ({ info with
            incomingRoutes := left
            dataStatus := if left = [] then .done else info.dataStatus },
          reached.map fun peer =>
            .sendReceipt peer receipt info.routingFlags.isDestination info.handOvers)

/-- An entry for which a tunnel is found is done with for this time, its receipt too. -/
def routeEntry (info : RoutingInfo) : RoutingInfo × List Event :=
  match info.dataStatus with
  | .pending =>
      if collectTunnels env info ≠ [] then
        ({ info with dataStatus := .ongoing, dataTransaction := env.now },
          sendEvents info.dataItem (collectTunnels env info))
      else
        let (info, sent) := routePending env info
        let (info, receipts) := routeReceipt env info
        (info, sent ++ receipts)
  | .ongoing =>
      if env.now > maxTransactionAckWaitingTime + info.dataTransaction then
        routeReceipt env { info with dataStatus := .pending }
      else routeReceipt env info
  | .sent =>
      if info.routingFlags.isOrigin ∧ info.lastSent + maxDelayForResend < env.now then
        routeReceipt env { info with dataStatus := .pending }
      else
        routeReceipt env
          { info with routingFlags := { info.routingFlags with allowTunnels := false } }
  | _ => routeReceipt env info

def routePass (s : Router) (entry : Nat × RoutingInfo) : Router :=
  let (info, events) := routeEntry env entry.2
  (s.setPending entry.1 info).record events

def routePendingObjects (s : Router) : Router :=
  s.pendingMessages.toList.foldl (routePass env) s

/-- The entry is too old for the cache. -/
def Expired (info : RoutingInfo) : Prop :=
  match info.dataStatus with
  | .done => ¬ info.routingFlags.isDestination ∨
      info.receivedTime + maxDestinationKeepTime < env.now
  | .receiptOk => info.receivedTime + maxReceiptKeepTime < env.now
  | _ => info.receivedTime + itemMaxCacheKeepTime < env.now

instance (info : RoutingInfo) : Decidable (Expired env info) := by
  unfold Expired
  split <;> infer_instance

def failedMessages (s : Router) : List Event :=
  s.pendingMessages.toList.filterMap fun (id, info) =>
    if Expired env info ∧ info.dataStatus ≠ .done ∧ info.clientId ∈ s.registeredServices then
      some (.notifyDataStatus id info.dataItem.signature.keyId .failed)
    else none

def autoWash (s : Router) : Router :=
  { s with pendingMessages := s.pendingMessages.filter fun _ info => ¬ Expired env info }.record
    (s.failedMessages env)

/-! ### The configuration file -/

def saveList (s : Router) : Router := { s with saved := s.pendingMessages }

/-- A restart: the entries are as they were last saved, without the time of their transaction. -/
def loadList (s : Router) : Router :=
  { s with
    registeredServices := ∅
    ownedKeyIds := ∅
    pendingMessages := s.saved.map fun _ info => { info with dataTransaction := 0 } }

/-! ### Steps -/

inductive Op
  | registerClientService (id : Nat)
  | registerKey (key : GxsId) (client : Nat)
  | unregisterKey (key : GxsId) (client : Nat)
  | sendData (env : Surroundings) (peerId : PeerId) (destination : GxsId) (client : Nat)
      (data : List UInt8) (signingId : GxsId)
  | cancel (id : Nat)
  | handleIncomingDataItem (env : Surroundings) (item : GenericDataItem)
  | handleIncomingReceiptItem (env : Surroundings) (receipt : SignedReceiptItem)
  | handleLowLevelTransactionAckItem (env : Surroundings) (id : Nat)
  | routePendingObjects (env : Surroundings)
  | autoWash (env : Surroundings)
  | saveList
  | loadList

def run (s : Router) : Op → Option Router
  | .registerClientService id => some (s.registerClientService id)
  | .registerKey key client => some (s.registerKey c key client)
  | .unregisterKey key client => some (s.unregisterKey c key client)
  | .sendData env peerId destination client data signingId =>
      s.sendData c env peerId destination client data signingId
  | .cancel id => some (s.cancel id)
  | .handleIncomingDataItem env item => some (s.handleIncomingDataItem c env item)
  | .handleIncomingReceiptItem env receipt => some (s.handleIncomingReceiptItem c env receipt)
  | .handleLowLevelTransactionAckItem env id => some (s.handleLowLevelTransactionAckItem env id)
  | .routePendingObjects env => some (s.routePendingObjects env)
  | .autoWash env => some (s.autoWash env)
  | .saveList => some s.saveList
  | .loadList => some s.loadList

/-- Nothing happens after an assertion has failed. -/
def step (s : Router) (op : Op) : Option Router :=
  if s.aborted then none else s.run c op

end Router

end RetroShare.GRouter
