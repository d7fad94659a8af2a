import RetroShare.FileSharing.FriendIndex
import Mathlib.Data.Set.Function

/-!
# Friends and places

In every run each friend in the map has a place of its own, and every place has the friend that the
map leads to it, as long as the table does not become full.
-/

namespace RetroShare.FileSharing.FriendTable

open Transition

variable {s t : FriendTable} {pointerSize : Nat} {pid : PeerId} {i : Nat}

/-- The map and the vector say the same. -/
structure Consistent (s : FriendTable) : Prop where
  filled : ∀ i : Nat, s.mRemoteDirectories[i]? ≠ some none
  find_iff : ∀ (pid : PeerId) (i : Nat),
    s.mFriendIndexMap[pid]? = some i ↔ s.mRemoteDirectories[i]? = some (some ⟨pid⟩)

theorem consistent_new : Consistent new where
  filled i := by simp [new]
  find_iff pid i := by simp [new]

/-! ### Places are given -/

theorem Consistent.no_empty (hs : s.Consistent) :
    s.mRemoteDirectories.findIdx? (·.isNone) = none := by
  rw [List.findIdx?_eq_none_iff]
  intro dir hdir
  obtain ⟨i, hi⟩ := List.mem_iff_getElem?.mp hdir
  cases dir with
  | none => exact absurd hi (hs.filled i)
  | some dir => rfl

theorem Consistent.getFriendIndex_of_absent (hs : s.Consistent)
    (habsent : s.mFriendIndexMap[pid]? = none) :
    (s.getFriendIndex pointerSize pid).2 =
      if FriendTable.isFull pointerSize
          { s with mRemoteDirectories := s.mRemoteDirectories ++ [some ⟨pid⟩] } then
        { s with mRemoteDirectories := s.mRemoteDirectories ++ [some ⟨pid⟩] }
      else ⟨s.mRemoteDirectories ++ [some ⟨pid⟩],
        s.mFriendIndexMap.insert pid s.mRemoteDirectories.length⟩ := by
  rw [getFriendIndex, habsent, hs.no_empty]
  simp only [Option.getD_none, if_true]
  split <;> rfl

theorem Consistent.getFriendIndex_of_present (hs : s.Consistent)
    (hpresent : s.mFriendIndexMap[pid]? = some i) :
    s.getFriendIndex pointerSize pid = (i, s) := by
  have hplace := (hs.find_iff pid i).mp hpresent
  have hlt : i < s.mRemoteDirectories.length := (List.getElem?_eq_some_iff.mp hplace).1
  rw [getFriendIndex, hpresent]
  exact if_neg (Nat.not_le.mpr hlt)

theorem Consistent.append (hs : s.Consistent) (habsent : s.mFriendIndexMap[pid]? = none) :
    Consistent ⟨s.mRemoteDirectories ++ [some ⟨pid⟩],
      s.mFriendIndexMap.insert pid s.mRemoteDirectories.length⟩ := by
  constructor
  case filled =>
    intro i
    rw [List.getElem?_append]
    split
    · exact hs.filled i
    · rw [List.getElem?_singleton]
      split <;> simp
  case find_iff =>
    intro q i
    dsimp only
    rw [OrderedMap.lookup_insert, List.getElem?_append]
    by_cases hq : pid = q
    · subst hq
      rw [if_pos rfl]
      split
      case isTrue hlt =>
        have : s.mRemoteDirectories[i]? ≠ some (some ⟨pid⟩) := fun h =>
          Option.some_ne_none i (((hs.find_iff pid i).mpr h).symm.trans habsent)
        simp [this, hlt.ne']
      case isFalse hge =>
        rw [List.getElem?_singleton, Option.some.injEq]
        constructor
        · intro h
          rw [if_pos (by omega)]
        · intro h
          split at h
          · omega
          · cases h
    · rw [if_neg hq, hs.find_iff]
      split
      · rfl
      case isFalse hge =>
        rw [List.getElem?_singleton, List.getElem?_eq_none (Nat.not_lt.mp hge)]
        split
        · simp [hq]
        · rfl

theorem length_getFriendIndex (s : FriendTable) (pid : PeerId) :
    s.mRemoteDirectories.length ≤
      (s.getFriendIndex pointerSize pid).2.mRemoteDirectories.length := by
  unfold getFriendIndex
  split
  · dsimp only
    split <;> split <;> simp
  · dsimp only
    split
    · simp
    · exact le_rfl

theorem Consistent.getFriendIndex (hs : s.Consistent)
    (hroom : (s.getFriendIndex pointerSize pid).2.isFull pointerSize = false) :
    (s.getFriendIndex pointerSize pid).2.Consistent := by
  cases hfind : s.mFriendIndexMap[pid]? with
  | none =>
      rw [hs.getFriendIndex_of_absent hfind] at hroom ⊢
      split at hroom
      case isTrue hfull => exact absurd (hfull.symm.trans hroom) (by decide)
      case isFalse hfull =>
        rw [if_neg hfull]
        exact hs.append hfind
  | some i =>
      rw [hs.getFriendIndex_of_present hfind]
      exact hs

theorem isFull_mono (hle : s.mRemoteDirectories.length ≤ t.mRemoteDirectories.length)
    (hroom : t.isFull pointerSize = false) : s.isFull pointerSize = false := by
  unfold isFull at hroom ⊢
  cases hlimit : friendIndexLimit pointerSize with
  | none => rfl
  | some limit =>
      rw [hlimit] at hroom
      rw [Option.any_some, decide_eq_false_iff_not] at hroom ⊢
      exact fun hfull => hroom (hfull.trans hle)

/-! ### Places are taken -/

theorem fillPlace_of_filled {passes : Nat} {dirs : List (Option RemoteDirectory)}
    (hfilled : dirs[i]? ≠ some none) : fillPlace passes dirs i = dirs := by
  cases passes with
  | zero => rfl
  | succ passes =>
      rw [fillPlace]
      split
      case h_1 hplace => exact absurd hplace hfilled
      case h_2 => rfl

/-- The last directory has moved to the place. -/
theorem fillPlace_getElem {dirs : List (Option RemoteDirectory)}
    (hfilled : ∀ k : Nat, dirs[k]? ≠ some none) (hi : i < dirs.length) (k : Nat) :
    (fillPlace dirs.length (dirs.set i none) i)[k]? =
      if k + 1 < dirs.length then if k = i then dirs[dirs.length - 1]? else dirs[k]? else none := by
  obtain ⟨n, hn⟩ : ∃ n, dirs.length = n + 1 := ⟨dirs.length - 1, by omega⟩
  have hlast : (dirs.set i none).getLastD none = if i = n then none else (dirs[n]?).join := by
    rw [List.getLastD_eq_getLast?, List.getLast?_eq_getElem?, List.length_set, hn,
      Nat.add_sub_cancel, List.getElem?_set]
    split
    · simp
    · cases dirs[n]? <;> rfl
  have hstep : fillPlace dirs.length (dirs.set i none) i =
      fillPlace n ((dirs.set i none).set i ((dirs.set i none).getLastD none)).dropLast i := by
    rw [hn, fillPlace, List.getElem?_set_self hi]
  have hmoved : ∀ k, ((dirs.set i none).set i ((dirs.set i none).getLastD none)).dropLast[k]? =
      if k + 1 < dirs.length then if k = i then dirs[dirs.length - 1]? else dirs[k]? else none := by
    intro k
    rw [List.getElem?_dropLast, List.length_set, List.length_set, List.set_set, hlast, hn,
      Nat.add_sub_cancel]
    by_cases hk : k < n
    · rw [if_pos hk, if_pos (Nat.succ_lt_succ hk)]
      by_cases hki : k = i
      · subst hki
        rw [List.getElem?_set_self hi, if_pos rfl, if_neg hk.ne]
        have hn' : n < dirs.length := hn ▸ Nat.lt_succ_self n
        obtain ⟨dir, hdir⟩ : ∃ dir, dirs[n]? = some dir := ⟨_, List.getElem?_eq_getElem hn'⟩
        rw [hdir, Option.join_some]
      · rw [List.getElem?_set_ne (Ne.symm hki), if_neg hki]
    · rw [if_neg hk, if_neg (by omega)]
  rw [hstep, fillPlace_of_filled, hmoved]
  rw [hmoved, if_pos rfl]
  split
  · exact hfilled _
  · simp

theorem Consistent.friend_unique (hs : s.Consistent) {q : PeerId}
    (hpid : s.mFriendIndexMap[pid]? = some i) (hq : s.mFriendIndexMap[q]? = some i) : q = pid := by
  have hdir := ((hs.find_iff pid i).mp hpid).symm.trans ((hs.find_iff q i).mp hq)
  rw [Option.some.injEq, Option.some.injEq, RemoteDirectory.mk.injEq] at hdir
  exact hdir.symm

theorem Consistent.lt_length (hs : s.Consistent) {k : Nat} (hfind : s.mFriendIndexMap[pid]? = some k) :
    k < s.mRemoteDirectories.length :=
  (List.getElem?_eq_some_iff.mp ((hs.find_iff pid k).mp hfind)).1

/-- What the places say after one was taken, in terms of the map before. -/
theorem Consistent.place_iff (hs : s.Consistent) {dirs : List (Option RemoteDirectory)}
    (hdirs : ∀ k : Nat, dirs[k]? = if k + 1 < s.mRemoteDirectories.length then
      if k = i then s.mRemoteDirectories[s.mRemoteDirectories.length - 1]?
      else s.mRemoteDirectories[k]? else none) (q : PeerId) (k : Nat) :
    dirs[k]? = some (some ⟨q⟩) ↔ k + 1 < s.mRemoteDirectories.length ∧ s.mFriendIndexMap[q]? =
      some (if k = i then s.mRemoteDirectories.length - 1 else k) := by
  rw [hdirs, hs.find_iff]
  split
  case isTrue hk =>
    split
    · simp [hk]
    · simp [hk]
  case isFalse hk => simp [hk]

theorem Consistent.removePlace (hs : s.Consistent)
    (hplace : s.mRemoteDirectories[i]? = some (some ⟨pid⟩)) :
    (s.removePlace i pid).Consistent := by
  have hi : i < s.mRemoteDirectories.length := (List.getElem?_eq_some_iff.mp hplace).1
  have hdirs := fillPlace_getElem hs.filled hi
  have hpid : s.mFriendIndexMap[pid]? = some i := (hs.find_iff pid i).mpr hplace
  unfold FriendTable.removePlace
  dsimp only
  generalize fillPlace s.mRemoteDirectories.length (s.mRemoteDirectories.set i none) i = dirs at hdirs
  have hfilled : ∀ k : Nat, dirs[k]? ≠ some none := by
    intro k
    rw [hdirs]
    split
    · split
      · exact hs.filled _
      · exact hs.filled k
    · simp
  have hplaces := hs.place_iff hdirs
  by_cases hinner : i + 1 < s.mRemoteDirectories.length
  · obtain ⟨moved, hmoved⟩ : ∃ moved, dirs[i]? = some (some moved) := by
      have hlast : dirs[i]? ≠ none := by
        rw [hdirs, if_pos hinner, if_pos rfl, Ne, List.getElem?_eq_none_iff]
        omega
      obtain ⟨dir, hdir⟩ := Option.ne_none_iff_exists'.mp hlast
      cases dir with
      | none => exact absurd hdir (hfilled i)
      | some moved => exact ⟨moved, hdir⟩
    obtain ⟨-, hlast⟩ := (hplaces moved.peerId i).mp hmoved
    rw [if_pos rfl] at hlast
    rw [hmoved]
    refine ⟨hfilled, fun q k => ?_⟩
    dsimp only
    rw [hplaces, OrderedMap.lookup_insert, OrderedMap.lookup_erase]
    have hlt : s.mFriendIndexMap[q]? = some k → k < s.mRemoteDirectories.length := hs.lt_length
    have hown : s.mFriendIndexMap[q]? = some i → q = pid := hs.friend_unique hpid
    have hown' : s.mFriendIndexMap[q]? = some (s.mRemoteDirectories.length - 1) →
        q = moved.peerId := hs.friend_unique hlast
    grind
  · have hnone : dirs[i]? = none := by rw [hdirs, if_neg hinner]
    rw [hnone]
    refine ⟨hfilled, fun q k => ?_⟩
    dsimp only
    rw [hplaces, OrderedMap.lookup_erase]
    have hlt : s.mFriendIndexMap[q]? = some k → k < s.mRemoteDirectories.length := hs.lt_length
    have hown : s.mFriendIndexMap[q]? = some i → q = pid := hs.friend_unique hpid
    grind

/-! ### Cleaning up -/

theorem Consistent.sweepPlaces {view : CleanupView} {passes : Nat}
    {friendSet : OrderedMap PeerId Unit} (hs : s.Consistent) :
    (sweepPlaces view passes i s friendSet).1.Consistent := by
  induction passes generalizing i s friendSet with
  | zero => exact hs
  | succ passes ih =>
      rw [FriendTable.sweepPlaces]
      split
      case h_1 => exact hs
      case h_2 => exact ih hs
      case h_3 dir hplace =>
        split
        · exact ih (hs.removePlace hplace)
        · exact ih hs

theorem length_admitFriend (view : CleanupView) (s : FriendTable) (pid : PeerId) :
    s.mRemoteDirectories.length ≤
      (admitFriend pointerSize view s pid).mRemoteDirectories.length := by
  rw [admitFriend]
  split
  · exact length_getFriendIndex s pid
  · exact le_rfl

theorem length_admitFriends (view : CleanupView) (friends : List PeerId) (s : FriendTable) :
    s.mRemoteDirectories.length ≤
      (friends.foldl (admitFriend pointerSize view) s).mRemoteDirectories.length := by
  induction friends generalizing s with
  | nil => exact le_rfl
  | cons pid friends ih => exact (length_admitFriend view s pid).trans (ih _)

theorem Consistent.admitFriends {view : CleanupView} {friends : List PeerId} (hs : s.Consistent)
    (hroom : (friends.foldl (admitFriend pointerSize view) s).isFull pointerSize = false) :
    (friends.foldl (admitFriend pointerSize view) s).Consistent := by
  induction friends generalizing s with
  | nil => exact hs
  | cons pid friends ih =>
      refine ih ?_ hroom
      have hroom' : (admitFriend pointerSize view s pid).isFull pointerSize = false :=
        isFull_mono (length_admitFriends view friends _) hroom
      rw [admitFriend] at hroom' ⊢
      split at hroom'
      case isTrue hadmit =>
        rw [if_pos hadmit]
        exact hs.getFriendIndex hroom'
      case isFalse hkeep =>
        rw [if_neg hkeep]
        exact hs

theorem Consistent.cleanup {view : CleanupView} (hs : s.Consistent)
    (hroom : (s.cleanup pointerSize view).isFull pointerSize = false) :
    (s.cleanup pointerSize view).Consistent :=
  Consistent.admitFriends (Consistent.sweepPlaces hs) hroom

/-! ### Runs -/

/-- The step leaves the table with fewer places than the greatest number of friends. -/
def LeavesRoom (pointerSize : Nat) (s : FriendTable) (op : FriendOp) : Prop :=
  ∀ t, s.step pointerSize op = some t → t.isFull pointerSize = false

theorem Consistent.step {op : FriendOp} (hs : s.Consistent) (hroom : LeavesRoom pointerSize s op)
    (hstep : s.step pointerSize op = some t) : t.Consistent := by
  have hroom := hroom t hstep
  cases op with
  | getFriendIndex pid =>
      cases hstep
      exact hs.getFriendIndex hroom
  | cleanup view =>
      cases hstep
      exact hs.cleanup hroom

/-- Friends and places correspond, and no place is empty. -/
structure IsBijection (s : FriendTable) : Prop where
  bijOn : Set.BijOn (fun pid => (s.mFriendIndexMap[pid]?).getD 0) {pid | pid ∈ s.mFriendIndexMap}
    {i | i < s.mRemoteDirectories.length}
  filled : ∀ i < s.mRemoteDirectories.length, ∃ dir, s.mRemoteDirectories[i]? = some (some dir)
  peerId_eq : ∀ pid i, s.mFriendIndexMap[pid]? = some i →
    ∃ dir : RemoteDirectory, s.mRemoteDirectories[i]? = some (some dir) ∧ dir.peerId = pid

theorem Consistent.isBijection (hs : s.Consistent) : s.IsBijection := by
  have hfilled : ∀ i < s.mRemoteDirectories.length,
      ∃ dir, s.mRemoteDirectories[i]? = some (some dir) := by
    intro i hi
    have hplace := hs.filled i
    rw [List.getElem?_eq_getElem hi] at hplace ⊢
    obtain ⟨dir, hdir⟩ := Option.ne_none_iff_exists'.mp fun h => hplace (congrArg some h)
    exact ⟨dir, congrArg some hdir⟩
  have hfind : ∀ pid ∈ s.mFriendIndexMap,
      s.mFriendIndexMap[pid]? = some ((s.mFriendIndexMap[pid]?).getD 0) := by
    intro pid hpid
    rw [Std.ExtTreeMap.getElem?_eq_some_getElem hpid, Option.getD_some]
  refine ⟨⟨?mapsTo, ?injOn, ?surjOn⟩, hfilled, fun pid i hpid => ⟨_, (hs.find_iff pid i).mp hpid, rfl⟩⟩
  case mapsTo =>
    intro pid hpid
    exact hs.lt_length (hfind pid hpid)
  case injOn =>
    intro p hp q hq heq
    refine (hs.friend_unique (hfind p hp) ((hfind q hq).trans ?_)).symm
    exact congrArg some heq.symm
  case surjOn =>
    intro i hi
    obtain ⟨dir, hdir⟩ := hfilled i hi
    have hpid := (hs.find_iff dir.peerId i).mpr hdir
    refine ⟨dir.peerId, Std.ExtTreeMap.mem_iff_isSome_getElem?.mpr ?_, ?_⟩
    · rw [hpid]
      rfl
    · dsimp only
      rw [hpid]
      rfl

/-- **Every friend has a place of its own.** In every run that leaves room, whoever asks for a place
and whoever is removed in whatever order. -/
theorem isBijection_of_reaches
    (hreach : Reaches (step pointerSize) (LeavesRoom pointerSize) new s) : s.IsBijection :=
  (Reaches.invariant Consistent (fun _ _ _ hs hroom hstep => hs.step hroom hstep) consistent_new
    hreach).isBijection

/-- A peer id of equal bytes. -/
def peerOf (byte : UInt8) : PeerId := ⟨List.replicate 16 byte, List.length_replicate⟩

/-- Only the second of two friends is left. -/
def leavingView : CleanupView where
  friendList := [peerOf 2]
  now := 0
  recursModTime _ := 0
  lastConnect _ := none
  isOnline _ := false
  fileExists _ := false

def afterLeaving : FriendTable :=
  ((new.getFriendIndex 8 (peerOf 1)).2.getFriendIndex 8 (peerOf 2)).2.cleanup 8 leavingView

theorem isBijection_afterLeaving : afterLeaving.IsBijection := by
  have hfirst : Reaches (step 8) (LeavesRoom 8) new (new.getFriendIndex 8 (peerOf 1)).2 :=
    (Reaches.refl new).next (.getFriendIndex (peerOf 1))
      (fun t ht => by cases ht; decide) rfl
  have hsecond := hfirst.next (.getFriendIndex (peerOf 2)) (fun t ht => by cases ht; decide) rfl
  exact isBijection_of_reaches
    (hsecond.next (.cleanup leavingView) (fun t ht => by cases ht; decide) rfl)

end RetroShare.FileSharing.FriendTable
