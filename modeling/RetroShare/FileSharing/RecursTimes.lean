import RetroShare.FileSharing.SyncResponses

/-!
# Recursive modification times

`InternalFileHierarchyStorage::recursUpdateLastModfTime` gives every directory the time that friends
ask with, and `p3FileDatabase::handleDirSyncRequest` compares it with what a friend knows. A time is
a 64-bit number of seconds, also before 1970; the items of the protocol carry 32 bits of it.
-/

namespace RetroShare.FileSharing

namespace Storage

/-- What the loop over the files makes of one of them. -/
def accountFile (s : Storage) (acc : Int × Bool) (kid : Nat) : Option (Int × Bool) :=
  (s.getFile kid).map fun f =>
    if f.fileHash ≠ nullHash then (max acc.1 f.fileModtime, acc.2) else (acc.1, true)

/-- What the loop over the subdirectories makes of one of them, by means of the recursive call. -/
def accountSubdir (recurs : Storage → Nat → Option (Int × Bool × Storage))
    (acc : (Int × Bool) × Storage) (kid : Nat) : Option ((Int × Bool) × Storage) :=
  (recurs acc.2 kid).map fun result =>
    ((max acc.1.1 result.1, acc.1.2 || result.2.1), result.2.2)

/-- While some files are not hashed, the time is reduced by one. -/
def reducedTime (acc : Int × Bool) : Int :=
  if acc.2 ∧ acc.1 > 0 then acc.1 - 1 else acc.1

/-- One level of the recursion is spent for each directory on the way down. -/
def recursUpdate : Nat → Storage → Nat → Option (Int × Bool × Storage)
  | 0, _, _ => none
  | depth + 1, s, dirIndex => do
      let d ← s.getDir dirIndex
      let acc ← d.subfiles.foldlM s.accountFile (d.dirModtime, false)
      let (acc, s) ← d.subdirs.foldlM (accountSubdir (recursUpdate depth)) (acc, s)
      let s ← s.modifyDir dirIndex fun d => { d with dirMostRecentTime := reducedTime acc }
      return (reducedTime acc, acc.2, s)

/-- The time, whether unfinished files are present, and the state. A directory below itself is never
done with. -/
def recursUpdateLastModfTime (s : Storage) (dirIndex : Nat) : Option (Int × Bool × Storage) :=
  recursUpdate s.mNodes.length s dirIndex

end Storage

/-! ### Answering -/

/-- `RsFileListsSyncRequestItem` -/
structure SyncRequest where
  peerId : PeerId
  entryHash : FileHash
  lastKnownRecursModfTS : Nat
  requestId : Nat

def flagsSyncResponse : BitVec 32 := 0x0002

def flagsSyncDirContent : BitVec 32 := 0x0004

def flagsEntryUpToDate : BitVec 32 := 0x0008

def flagsEntryWasRemoved : BitVec 32 := 0x0010

/-- A time as the items carry it. -/
def itemTime (time : Int) : Nat := (time % 2 ^ 32).toNat

section Requests

variable (sha1sum : List UInt8 → FileHash) (browsable : PeerId → Nat → Bool)
  (serialiseDirEntry : Storage → Nat → PeerId → List UInt8)

/-- The response to a request, once the hash has led to an entry. -/
def syncResponse (s : Storage) (entryIndex : Nat) (item : SyncRequest) : SyncResponse :=
  let ritem : SyncResponse :=
    ⟨item.peerId, item.entryHash, nullHash, 0, 0, item.requestId, 0, []⟩
  match s.getDir entryIndex with
  | none => { ritem with flags := flagsSyncResponse ||| flagsEntryWasRemoved }
  | some d =>
      if entryIndex ≠ 0 ∧ !browsable item.peerId entryIndex then
        { ritem with flags := flagsSyncResponse ||| flagsEntryWasRemoved }
      else if (item.lastKnownRecursModfTS : Int) ≠ d.dirMostRecentTime then
        { ritem with
          flags := flagsSyncResponse ||| flagsSyncDirContent
          lastKnownRecursModfTS := itemTime d.dirMostRecentTime
          data := serialiseDirEntry s entryIndex item.peerId }
      else
        { ritem with
          flags := flagsSyncResponse ||| flagsEntryUpToDate
          lastKnownRecursModfTS := itemTime d.dirMostRecentTime }

/-- The items that are sent; none when the hash leads nowhere. -/
def handleDirSyncRequest (s : Storage) (item : SyncRequest) : List SyncResponse × Storage :=
  match s.getIndexFromDirHash item.entryHash with
  | (none, s) => ([], s)
  | (some entryIndex, s) =>
      (splitAndSendItem sha1sum (syncResponse browsable serialiseDirEntry s entryIndex item), s)

end Requests

end RetroShare.FileSharing
