import RetroShare.FileSharing.DirHierarchy

/-!
# Directory sync responses

`p3FileDatabase`: the answer to a directory sync request is sent in parts when it is large, and the
friend who asked puts the parts together again. Parts of one answer arrive in order; a friend who is
lost takes what is still on its way along.
-/

namespace RetroShare.FileSharing

abbrev PeerId := { bytes : List UInt8 // bytes.length = 16 }

/-- `RsFileListsSyncResponseItem`, with the directory content as bytes. -/
structure SyncResponse where
  peerId : PeerId
  entryHash : FileHash
  checksum : FileHash
  flags : BitVec 32
  lastKnownRecursModfTS : Nat
  requestId : Nat
  tlvtype : Nat
  data : List UInt8
  deriving DecidableEq

def flagsSyncPartial : BitVec 32 := 0x0020

def flagsSyncPartialEnd : BitVec 32 := 0x0040

def maxDirSyncResponseDataSize : Nat := 20000

/-- The same for every request for one directory of one friend. -/
def makeDirSyncReqId (sha1sum : List UInt8 → FileHash) (randomBias : Nat) (peerId : PeerId)
    (hash : FileHash) : Nat :=
  randomBias ^^^
    ((sha1sum (peerId.1 ++ hash.1)).1.take 8).foldr (fun byte n => byte.toNat + 256 * n) 0

/-! ### Sending -/

/-- The loop of `splitAndSendItem`. Every pass takes bytes off, so as many passes as there are bytes
are enough. -/
def splitParts : Nat → SyncResponse → List SyncResponse
  | 0, ritem => [ritem]
  | passes + 1, ritem =>
      if ritem.data.length > maxDirSyncResponseDataSize then
        let ritem := { ritem with flags := ritem.flags ||| flagsSyncPartial }
        let subitem := { ritem with data := ritem.data.take maxDirSyncResponseDataSize }
        let ritem := { ritem with data := ritem.data.drop maxDirSyncResponseDataSize }
        let ritem := if ritem.data.length ≤ maxDirSyncResponseDataSize then
          { ritem with flags := ritem.flags ||| flagsSyncPartialEnd } else ritem
        subitem :: splitParts passes ritem
      else [ritem]

def splitAndSendItem (sha1sum : List UInt8 → FileHash) (ritem : SyncResponse) :
    List SyncResponse :=
  splitParts ritem.data.length { ritem with checksum := sha1sum ritem.data }

/-! ### Receiving -/

/-- The item that is returned, and the partial items. Where the lengths do not add up in 32 bits, the
code writes behind the end of its buffer. -/
def recvAndRebuildItem (ritem : SyncResponse) (partialItems : OrderedMap Nat SyncResponse) :
    Option (Option SyncResponse × OrderedMap Nat SyncResponse) :=
  if ritem.flags &&& flagsSyncPartial = 0 then some (some ritem, partialItems)
  else
    let isEnding := ritem.flags &&& flagsSyncPartialEnd ≠ 0
    match partialItems[ritem.requestId]? with
    | none =>
        if isEnding then some (none, partialItems)
        else some (none, partialItems.insert ritem.requestId ritem)
    | some stored =>
        if stored.checksum ≠ ritem.checksum then some (none, partialItems.erase ritem.requestId)
        else if 2 ^ 32 ≤ stored.data.length + ritem.data.length then none
        else
          let stored := { stored with data := stored.data ++ ritem.data }
          if isEnding then
            some (some { stored with
              flags := stored.flags &&& ~~~flagsSyncPartialEnd &&& ~~~flagsSyncPartial },
              partialItems.erase ritem.requestId)
          else some (none, partialItems.insert ritem.requestId stored)

/-! ### Runs -/

/-- An item on its way. Only observers see whether it is the first part of its response, and the
whole response when it is the last one. -/
structure Part where
  item : SyncResponse
  first : Bool
  last : Option SyncResponse

def observeParts (response : SyncResponse) : Bool → List SyncResponse → List Part
  | _, [] => []
  | first, [item] => [⟨item, first, some response⟩]
  | first, item :: rest => ⟨item, first, none⟩ :: observeParts response false rest

/-- A node that asks its friends. The parts on their way are kept by friend and directory, in order;
the responses that arrived completely and what was returned are logs. -/
structure SyncState where
  mPartialResponseItems : OrderedMap Nat SyncResponse
  inFlight : PeerId → FileHash → List Part
  completed : List SyncResponse
  returned : List SyncResponse

inductive SyncOp
  | answer (peerId : PeerId) (ritem : SyncResponse)
  | receive (peerId : PeerId) (entryHash : FileHash)
  | disconnect (peerId : PeerId)

namespace SyncState

def new : SyncState where
  mPartialResponseItems := ∅
  inFlight _ _ := []
  completed := []
  returned := []

section Steps

variable (sha1sum : List UInt8 → FileHash) (reqId : PeerId → FileHash → Nat)

/-- What a friend sends in answer to a request, as the response item it makes. -/
def response (peerId : PeerId) (ritem : SyncResponse) : SyncResponse :=
  { ritem with
    peerId := peerId, requestId := reqId peerId ritem.entryHash, checksum := sha1sum ritem.data }

def send (s : SyncState) (peerId : PeerId) (ritem : SyncResponse) : SyncState :=
  let sent := observeParts (response sha1sum reqId peerId ritem) true
    (splitAndSendItem sha1sum (response sha1sum reqId peerId ritem))
  { s with
    inFlight := Function.update s.inFlight peerId
      (Function.update (s.inFlight peerId) ritem.entryHash
        (s.inFlight peerId ritem.entryHash ++ sent)) }

def receive (s : SyncState) (peerId : PeerId) (entryHash : FileHash) : Option SyncState :=
  match s.inFlight peerId entryHash with
  | [] => none
  | part :: rest => do
      let (item, partialItems) ← recvAndRebuildItem part.item s.mPartialResponseItems
      return {
        mPartialResponseItems := partialItems
        inFlight := Function.update s.inFlight peerId
          (Function.update (s.inFlight peerId) entryHash rest)
        completed := s.completed ++ part.last.toList
        returned := s.returned ++ item.toList }

def step (s : SyncState) : SyncOp → Option SyncState
  | .answer peerId ritem => some (s.send sha1sum reqId peerId ritem)
  | .receive peerId entryHash => s.receive peerId entryHash
  | .disconnect peerId => some { s with inFlight := Function.update s.inFlight peerId fun _ => [] }

end Steps

end SyncState

end RetroShare.FileSharing
