import RetroShare.FileSharing.SyncResponses
import RetroShare.Foundation.Transition

/-!
# The table of friends

`p3FileDatabase` keeps the file lists of its friends in a vector and finds their places by peer id.
`locked_getFriendIndex` gives a friend a place; `cleanup` takes the places of those who are gone, and
of those who have long been offline, and fills them from the end.
-/

namespace RetroShare.FileSharing

def delayBeforeDeleteNonEmptyRemoteDir : Int := 60 * 24 * 86400

def delayBeforeDeleteEmptyRemoteDir : Int := 5 * 24 * 86400

/-- `RemoteDirectoryStorage`, without the hierarchy. -/
structure RemoteDirectory where
  peerId : PeerId
  deriving DecidableEq

structure FriendTable where
  mRemoteDirectories : List (Option RemoteDirectory)
  mFriendIndexMap : OrderedMap PeerId Nat

/-- What the peers, the disk, the clock and the stored lists say while `cleanup` runs. -/
structure CleanupView where
  friendList : List PeerId
  now : Int
  recursModTime : PeerId → Int
  lastConnect : PeerId → Option Int
  isOnline : PeerId → Bool
  fileExists : PeerId → Bool

/-- The number of places a table must stay below, by the size of a pointer: friends and entries
share one. -/
def friendIndexLimit (pointerSize : Nat) : Option Nat :=
  if pointerSize = 4 then some (2 ^ 10) else if pointerSize = 8 then some (2 ^ 24) else none

namespace FriendTable

def new : FriendTable := ⟨[], ∅⟩

def isFull (pointerSize : Nat) (s : FriendTable) : Bool :=
  (friendIndexLimit pointerSize).any (· ≤ s.mRemoteDirectories.length)

/-- An empty place is looked for from the front. The first place counts as none. -/
def getFriendIndex (pointerSize : Nat) (s : FriendTable) (pid : PeerId) : Nat × FriendTable :=
  match s.mFriendIndexMap[pid]? with
  | none =>
      let found := (s.mRemoteDirectories.findIdx? (·.isNone)).getD 0
      let size := s.mRemoteDirectories.length
      let s := if found = 0 then
        { s with mRemoteDirectories := s.mRemoteDirectories ++ [some ⟨pid⟩] } else s
      let found := if found = 0 then size else found
      if s.isFull pointerSize then ((friendIndexLimit pointerSize).getD 0, s)
      else (found, { s with mFriendIndexMap := s.mFriendIndexMap.insert pid found })
  | some index =>
      if s.mRemoteDirectories.length ≤ index then
        let missing := List.replicate (index + 1 - s.mRemoteDirectories.length) none
        (index, { s with
          mRemoteDirectories := (s.mRemoteDirectories ++ missing).set index (some ⟨pid⟩) })
      else (index, s)

/-- The loop that moves the last directory to an empty place. Every pass takes a place away, so as
many passes as there are places are enough. -/
def fillPlace : Nat → List (Option RemoteDirectory) → Nat → List (Option RemoteDirectory)
  | 0, dirs, _ => dirs
  | passes + 1, dirs, i =>
      match dirs[i]? with
      | some none => fillPlace passes (dirs.set i (dirs.getLastD none)).dropLast i
      | _ => dirs

def removePlace (s : FriendTable) (i : Nat) (pid : PeerId) : FriendTable :=
  let map := s.mFriendIndexMap.erase pid
  let dirs := fillPlace s.mRemoteDirectories.length (s.mRemoteDirectories.set i none) i
  match dirs[i]? with
  | some (some moved) => ⟨dirs, map.insert moved.peerId i⟩
  | _ => ⟨dirs, map⟩

def shouldRemove (view : CleanupView) (friendSet : OrderedMap PeerId Unit) (pid : PeerId) : Bool :=
  let lastContact := (view.lastConnect pid).getD 0
  !friendSet.contains pid ||
    (view.recursModTime pid = 0 && lastContact + delayBeforeDeleteEmptyRemoteDir < view.now) ||
    (view.recursModTime pid ≠ 0 && lastContact + delayBeforeDeleteNonEmptyRemoteDir < view.now)

/-- The loop of `cleanup` over the places. A directory that is moved to the place at hand is not
looked at again. -/
def sweepPlaces (view : CleanupView) :
    Nat → Nat → FriendTable → OrderedMap PeerId Unit → FriendTable × OrderedMap PeerId Unit
  | 0, _, s, friendSet => (s, friendSet)
  | passes + 1, i, s, friendSet =>
      match s.mRemoteDirectories[i]? with
      | none => (s, friendSet)
      | some none => sweepPlaces view passes (i + 1) s friendSet
      | some (some dir) =>
          if shouldRemove view friendSet dir.peerId then
            sweepPlaces view passes (i + 1) (s.removePlace i dir.peerId)
              (friendSet.erase dir.peerId)
          else sweepPlaces view passes (i + 1) s friendSet

/-- A friend gets a place when online, or when there is a file to load. -/
def admitFriend (pointerSize : Nat) (view : CleanupView) (s : FriendTable) (pid : PeerId) :
    FriendTable :=
  if view.isOnline pid || view.fileExists pid then (s.getFriendIndex pointerSize pid).2 else s

def cleanup (pointerSize : Nat) (view : CleanupView) (s : FriendTable) : FriendTable :=
  let friendSet := view.friendList.foldl (fun set pid => set.insert pid ()) ∅
  let (s, friendSet) := sweepPlaces view s.mRemoteDirectories.length 0 s friendSet
  (friendSet.toList.map Prod.fst).foldl (admitFriend pointerSize view) s

end FriendTable

inductive FriendOp
  | getFriendIndex (pid : PeerId)
  | cleanup (view : CleanupView)

namespace FriendTable

def step (pointerSize : Nat) (s : FriendTable) : FriendOp → Option FriendTable
  | .getFriendIndex pid => some (s.getFriendIndex pointerSize pid).2
  | .cleanup view => some (s.cleanup pointerSize view)

end FriendTable

end RetroShare.FileSharing
