import RetroShare.FileSharing.SyncResponses
import Mathlib.Data.Finset.Basic

/-!
# Banned files

`p3FileDatabase` keeps the files the user bans, what the friends who are online say they ban, and the
list of hashes that is asked for in searches. `checkSendBannedFilesInfo` tells the friends what the
user bans and makes the list. Friends only see hashes of hashes.
-/

namespace RetroShare.FileSharing

structure BannedFileEntry where
  size : Nat
  filename : Name
  banTimeStamp : Int

/-- As `operator[]` of a map makes it. -/
def BannedFileEntry.default : BannedFileEntry := ⟨0, [], 0⟩

structure PeerBannedFilesEntry where
  mBannedHashOfHash : Finset FileHash
  mSessionId : Nat
  mLastSent : Int

/-- As `operator[]` of a map makes it. -/
def PeerBannedFilesEntry.default : PeerBannedFilesEntry := ⟨∅, 0, 0⟩

/-- `RsFileListsBannedHashesItem` -/
structure BannedHashesItem where
  peerId : PeerId
  sessionId : Nat
  encryptedHashes : Finset FileHash

/-- The items of the last session sent to a peer, and those received from a peer since there is a
record of it, the newest first, are logs. -/
structure BanTables where
  mPrimaryBanList : OrderedMap FileHash BannedFileEntry
  mPeerBannedFiles : OrderedMap PeerId PeerBannedFilesEntry
  mBannedFileList : Finset FileHash
  mTrustFriendNodesForBannedFiles : Bool
  mBannedFileListNeedsUpdate : Bool
  mLastPrimaryBanListChangeTimeStamp : Int
  sent : PeerId → List BannedHashesItem
  received : PeerId → List BannedHashesItem

namespace BanTables

/-- The constructor leaves open whether the list needs an update. -/
def new (needsUpdate : Bool) : BanTables where
  mPrimaryBanList := ∅
  mPeerBannedFiles := ∅
  mBannedFileList := ∅
  mTrustFriendNodesForBannedFiles := true
  mBannedFileListNeedsUpdate := needsUpdate
  mLastPrimaryBanListChangeTimeStamp := 0
  sent _ := []
  received _ := []

section Operations

variable (encryptHash : FileHash → FileHash)

def banFile (s : BanTables) (hash : FileHash) (filename : Name) (size : Nat) (stamp now : Int) :
    BanTables :=
  let entry := (s.mPrimaryBanList[hash]?).getD .default
  if entry.banTimeStamp = 0 then
    { s with
      mPrimaryBanList := s.mPrimaryBanList.insert hash ⟨size, filename, stamp⟩
      mBannedFileList := insert (encryptHash hash) (insert hash s.mBannedFileList)
      mLastPrimaryBanListChangeTimeStamp := now
      mBannedFileListNeedsUpdate := true }
  else s

def unbanFile (s : BanTables) (hash : FileHash) (now : Int) : BanTables :=
  { s with
    mPrimaryBanList := s.mPrimaryBanList.erase hash
    mLastPrimaryBanListChangeTimeStamp := now
    mBannedFileListNeedsUpdate := true }

def setTrustFriendNodesForBannedFiles (s : BanTables) (b : Bool) : BanTables :=
  { s with
    mBannedFileListNeedsUpdate :=
      s.mBannedFileListNeedsUpdate || b != s.mTrustFriendNodesForBannedFiles
    mTrustFriendNodesForBannedFiles := b }

/-- One turn of the loop of `locked_sendBanInfo`: the items sent and the one at hand. -/
def packHash (peer : PeerId) (sessionId : Nat)
    (acc : List BannedHashesItem × Option BannedHashesItem) (hash : FileHash) :
    List BannedHashesItem × Option BannedHashesItem :=
  let item := acc.2.getD ⟨peer, sessionId, ∅⟩
  let item := { item with encryptedHashes := insert (encryptHash hash) item.encryptedHashes }
  if item.encryptedHashes.card ≥ 200 then (acc.1 ++ [item], none) else (acc.1, some item)

def sendBanInfo (s : BanTables) (peer : PeerId) (sessionId : Nat) : BanTables :=
  let (items, item) := (s.mPrimaryBanList.toList.map Prod.fst).foldl
    (packHash encryptHash peer sessionId) ([], some ⟨peer, sessionId, ∅⟩)
  { s with sent := Function.update s.sent peer (items ++ item.toList) }

def handleBannedFilesInfo (s : BanTables) (item : BannedHashesItem) : BanTables :=
  let pbfe := (s.mPeerBannedFiles[item.peerId]?).getD .default
  let kept := if pbfe.mSessionId ≠ item.sessionId then ∅ else pbfe.mBannedHashOfHash
  { s with
    mPeerBannedFiles := s.mPeerBannedFiles.insert item.peerId { pbfe with
      mBannedHashOfHash := kept ∪ item.encryptedHashes, mSessionId := item.sessionId }
    mBannedFileListNeedsUpdate := true
    received := Function.update s.received item.peerId (item :: s.received item.peerId) }

/-- One turn of the loop over the records. The second component holds the friends online that were
not met yet. -/
def refreshRecord (now : Int) (sessionId : PeerId → Nat) (acc : BanTables × Finset PeerId)
    (record : PeerId × PeerBannedFilesEntry) : BanTables × Finset PeerId :=
  let (s, peers) := acc
  if record.1 ∉ peers then
    ({ s with
      mPeerBannedFiles := s.mPeerBannedFiles.erase record.1
      received := Function.update s.received record.1 [] }, peers)
  else if record.2.mLastSent < s.mLastPrimaryBanListChangeTimeStamp then
    let s := s.sendBanInfo encryptHash record.1 (sessionId record.1)
    ({ s with
      mPeerBannedFiles := s.mPeerBannedFiles.insert record.1 { record.2 with mLastSent := now } },
      peers.erase record.1)
  else (s, peers.erase record.1)

/-- One turn of the loop over the friends without a record. -/
def addRecord (now : Int) (sessionId : PeerId → Nat) (s : BanTables) (peer : PeerId) : BanTables :=
  let s := s.sendBanInfo encryptHash peer (sessionId peer)
  let entry := (s.mPeerBannedFiles[peer]?).getD .default
  { s with mPeerBannedFiles := s.mPeerBannedFiles.insert peer { entry with mLastSent := now } }

def updateList (s : BanTables) : BanTables :=
  if s.mBannedFileListNeedsUpdate then
    let list := if s.mTrustFriendNodesForBannedFiles then
      s.mPeerBannedFiles.toList.foldl (fun list record => list ∪ record.2.mBannedHashOfHash) ∅
      else ∅
    let list := (s.mPrimaryBanList.toList.map Prod.fst).foldl
      (fun list hash => insert (encryptHash hash) (insert hash list)) list
    { s with mBannedFileList := list, mBannedFileListNeedsUpdate := false }
  else s

def checkSendBannedFilesInfo (s : BanTables) (online : List PeerId) (now : Int)
    (sessionId : PeerId → Nat) : BanTables :=
  let (s, peers) := s.mPeerBannedFiles.toList.foldl (refreshRecord encryptHash now sessionId)
    (s, online.toFinset)
  ((online.dedup.filter (· ∈ peers)).foldl (addRecord encryptHash now sessionId) s).updateList
    encryptHash

end Operations

end BanTables

inductive BanOp
  | banFile (hash : FileHash) (filename : Name) (size : Nat) (stamp now : Int)
  | unbanFile (hash : FileHash) (now : Int)
  | handleBannedFilesInfo (item : BannedHashesItem)
  | setTrustFriendNodesForBannedFiles (b : Bool)
  | checkSendBannedFilesInfo (online : List PeerId) (now : Int) (sessionId : PeerId → Nat)

namespace BanTables

def step (encryptHash : FileHash → FileHash) (s : BanTables) : BanOp → Option BanTables
  | .banFile hash filename size stamp now =>
      some (s.banFile encryptHash hash filename size stamp now)
  | .unbanFile hash now => some (s.unbanFile hash now)
  | .handleBannedFilesInfo item => some (s.handleBannedFilesInfo item)
  | .setTrustFriendNodesForBannedFiles b => some (s.setTrustFriendNodesForBannedFiles b)
  | .checkSendBannedFilesInfo online now sessionId =>
      some (s.checkSendBannedFilesInfo encryptHash online now sessionId)

end BanTables

end RetroShare.FileSharing
