import RetroShare.FileSharing.Proof.RecursTimes

/-!
# Hashing shows to friends

Two hierarchies that differ in files which have been hashed in the second: no time goes back, and
where the last file was hashed it moves on. What a friend asks with is 32 bits of the first time, and
those are the second time when the first one is before 1970 and the second one is a multiple of
`2 ^ 32` seconds later.
-/

namespace RetroShare.FileSharing

/-- The same node, except that a file may have been hashed and a time written. -/
inductive HashedLater : Option Node → Option Node → Prop
  | absent : HashedLater none none
  | same (fe : FileEntry) : HashedLater (some (.file fe)) (some (.file fe))
  | hashed (fe : FileEntry) (hash : FileHash) (hnull : fe.fileHash = nullHash)
      (hhash : hash ≠ nullHash) :
      HashedLater (some (.file fe)) (some (.file { fe with fileHash := hash }))
  | dir (d : DirEntry) (time : Int) :
      HashedLater (some (.dir d)) (some (.dir { d with dirMostRecentTime := time }))

namespace Storage

variable {s s' t t' u u' : Storage} {i j : Nat}

def DiffersInHashes (s s' : Storage) : Prop := ∀ i, HashedLater (s.node i) (s'.node i)

theorem DiffersInHashes.dir (hdiffers : DiffersInHashes s s') {d : DirEntry}
    (hdir : s.node i = some (.dir d)) :
    ∃ time, s'.node i = some (.dir { d with dirMostRecentTime := time }) := by
  have hnode := hdiffers i
  rw [hdir] at hnode
  generalize hs' : s'.node i = n at hnode
  cases hnode with
  | dir _ time => exact ⟨time, rfl⟩

theorem DiffersInHashes.dir_of_dir (hdiffers : DiffersInHashes s s') {d : DirEntry}
    (hdir : s'.node i = some (.dir d)) :
    ∃ time, s.node i = some (.dir { d with dirMostRecentTime := time }) := by
  have hnode := hdiffers i
  rw [hdir] at hnode
  generalize hs : s.node i = n at hnode
  cases hnode with
  | dir d _ => exact ⟨d.dirMostRecentTime, rfl⟩

theorem DiffersInHashes.file (hdiffers : DiffersInHashes s s') {fe : FileEntry}
    (hfile : s.node i = some (.file fe)) :
    ∃ fe', s'.node i = some (.file fe') ∧ fe'.fileModtime = fe.fileModtime ∧
      (fe'.fileHash = nullHash → fe.fileHash = nullHash) := by
  have hnode := hdiffers i
  rw [hfile] at hnode
  generalize hs' : s'.node i = n at hnode
  cases hnode with
  | same => exact ⟨fe, rfl, rfl, id⟩
  | hashed _ hash hnull hhash => exact ⟨_, rfl, rfl, fun h => absurd h hhash⟩

theorem DiffersInHashes.holdsDir_eq (hdiffers : DiffersInHashes s s') :
    s'.HoldsDir = s.HoldsDir := by
  funext k l
  refine propext ⟨?_, ?_⟩
  · rintro ⟨d, hdir, hkid⟩
    obtain ⟨time, hdir'⟩ := hdiffers.dir_of_dir hdir
    exact ⟨_, hdir', hkid⟩
  · rintro ⟨d, hdir, hkid⟩
    obtain ⟨time, hdir'⟩ := hdiffers.dir hdir
    exact ⟨_, hdir', hkid⟩

theorem DiffersInHashes.isHierarchy (hdiffers : DiffersInHashes s s') (hier : s.IsHierarchy i) :
    s'.IsHierarchy i := by
  constructor
  case dir =>
    rw [AtOrBelow, hdiffers.holdsDir_eq]
    intro k hk
    obtain ⟨d, hdir⟩ := hier.dir k hk
    obtain ⟨time, hdir'⟩ := hdiffers.dir hdir
    exact ⟨_, hdir'⟩
  case file =>
    rw [AtOrBelow, hdiffers.holdsDir_eq]
    intro k d kid hk hdir hkid
    obtain ⟨time, hdir'⟩ := hdiffers.dir_of_dir hdir
    obtain ⟨fe, hfile⟩ := hier.file k _ kid hk hdir' hkid
    obtain ⟨fe', hfile', -⟩ := hdiffers.file hfile
    exact ⟨fe', hfile'⟩
  case acyclic =>
    rw [AtOrBelow, hdiffers.holdsDir_eq]
    exact hier.acyclic

/-! ### Two runs -/

/-- The second outcome is later, has fewer unfinished files, and is past zero when it has none left
while the first had some. -/
structure Surpasses (acc acc' : Int × Bool) : Prop where
  le : acc.1 ≤ acc'.1
  unfinished : acc'.2 = true → acc.2 = true
  pos : acc.2 = true → acc'.2 = false → 0 < acc'.1

theorem reducedTime_of_finished {acc : Int × Bool} (hfinished : acc.2 = false) :
    reducedTime acc = acc.1 := if_neg (by simp [hfinished])

theorem Surpasses.reducedTime_le {acc acc' : Int × Bool} (hsurpasses : Surpasses acc acc') :
    reducedTime acc ≤ reducedTime acc' := by
  obtain ⟨hle, hunfinished, hpos⟩ := hsurpasses
  unfold reducedTime
  split
  case isTrue hreduce => split <;> omega
  case isFalse hkeep =>
    split
    case isTrue hreduce =>
      have := not_and.mp hkeep (hunfinished hreduce.1)
      omega
    case isFalse => exact hle

theorem Surpasses.reducedTime_lt {acc acc' : Int × Bool} (hsurpasses : Surpasses acc acc')
    (hunfinished : acc.2 = true) (hfinished : acc'.2 = false) :
    reducedTime acc < reducedTime acc' := by
  have hpos := hsurpasses.pos hunfinished hfinished
  have hle := hsurpasses.le
  rw [reducedTime_of_finished hfinished, reducedTime]
  split
  case isTrue => omega
  case isFalse hkeep =>
    have := not_and.mp hkeep hunfinished
    omega

theorem Surpasses.reduced {acc acc' : Int × Bool} (hsurpasses : Surpasses acc acc') :
    Surpasses (reducedTime acc, acc.2) (reducedTime acc', acc'.2) where
  le := hsurpasses.reducedTime_le
  unfinished := hsurpasses.unfinished
  pos hunfinished hfinished := by
    have hkept : reducedTime acc' = acc'.1 := reducedTime_of_finished hfinished
    rw [hkept]
    exact hsurpasses.pos hunfinished hfinished

theorem Surpasses.max {acc acc' result result' : Int × Bool} (hsurpasses : Surpasses acc acc')
    (hresult : Surpasses result result') :
    Surpasses (Max.max acc.1 result.1, acc.2 || result.2)
      (Max.max acc'.1 result'.1, acc'.2 || result'.2) where
  le := max_le_max hsurpasses.le hresult.le
  unfinished h := by
    rw [Bool.or_eq_true] at h ⊢
    exact h.imp hsurpasses.unfinished hresult.unfinished
  pos h h' := by
    rw [Bool.or_eq_true] at h
    rw [Bool.or_eq_false_iff] at h'
    obtain h | h := h
    · exact lt_max_of_lt_left (hsurpasses.pos h h'.1)
    · exact lt_max_of_lt_right (hresult.pos h h'.2)

def PositiveTimes (s : Storage) : Prop :=
  ∀ i fe, s.node i = some (.file fe) → 0 < fe.fileModtime

theorem foldlM_accountFile_surpasses (hdiffers : DiffersInHashes s s') (hpositive : s.PositiveTimes)
    {kids : List Nat} {acc acc' files files' : Int × Bool} (hsurpasses : Surpasses acc acc')
    (hfiles : kids.foldlM s.accountFile acc = some files)
    (hfiles' : kids.foldlM s'.accountFile acc' = some files') : Surpasses files files' := by
  induction kids generalizing acc acc' with
  | nil =>
      cases hfiles
      cases hfiles'
      exact hsurpasses
  | cons kid kids ih =>
      rw [List.foldlM_cons] at hfiles hfiles'
      obtain ⟨mid, hkid, hfiles⟩ := Option.bind_eq_some_iff.mp hfiles
      obtain ⟨mid', hkid', hfiles'⟩ := Option.bind_eq_some_iff.mp hfiles'
      refine ih ?_ hfiles hfiles'
      obtain ⟨fe, hget, rfl⟩ := Option.map_eq_some_iff.mp hkid
      obtain ⟨fe', hget', rfl⟩ := Option.map_eq_some_iff.mp hkid'
      have hnode := getFile_eq_some.mp hget
      obtain ⟨fe'', hnode', htime, hnull⟩ := hdiffers.file hnode
      rw [getFile_eq_some.mp hget'] at hnode'
      cases hnode'
      have hpos := hpositive kid fe hnode
      obtain ⟨hle, hunfinished, hpast⟩ := hsurpasses
      by_cases hhash' : fe'.fileHash = nullHash
      · rw [if_neg (not_not.mpr hhash'), if_neg (not_not.mpr (hnull hhash'))]
        exact ⟨hle, fun _ => rfl, fun _ h => absurd h (by simp)⟩
      · rw [if_pos hhash']
        by_cases hhash : fe.fileHash = nullHash
        · rw [if_neg (not_not.mpr hhash)]
          exact ⟨le_max_of_le_left hle, fun _ => rfl, fun _ _ => lt_max_of_lt_right (htime ▸ hpos)⟩
        · rw [if_pos hhash, htime]
          exact ⟨max_le_max_right _ hle, hunfinished,
            fun h h' => lt_max_of_lt_left (hpast h h')⟩

theorem foldlM_accountSubdir_surpasses {depth : Nat} {kids : List Nat}
    {acc acc' files files' : Int × Bool}
    (hrecurs : ∀ {kid v v' w w' time time' unfinished unfinished'}, SameShape s v →
      SameShape s' v' → recursUpdate depth v kid = some (time, unfinished, w) →
      recursUpdate depth v' kid = some (time', unfinished', w') →
        Surpasses (time, unfinished) (time', unfinished'))
    (hshape : SameShape s t) (hshape' : SameShape s' t') (hsurpasses : Surpasses acc acc')
    (hdirs : kids.foldlM (accountSubdir (recursUpdate depth)) (acc, t) = some (files, u))
    (hdirs' : kids.foldlM (accountSubdir (recursUpdate depth)) (acc', t') = some (files', u')) :
    Surpasses files files' := by
  induction kids generalizing acc acc' t t' with
  | nil =>
      cases hdirs
      cases hdirs'
      exact hsurpasses
  | cons kid kids ih =>
      rw [List.foldlM_cons] at hdirs hdirs'
      obtain ⟨⟨mid, v⟩, hkid, hdirs⟩ := Option.bind_eq_some_iff.mp hdirs
      obtain ⟨⟨mid', v'⟩, hkid', hdirs'⟩ := Option.bind_eq_some_iff.mp hdirs'
      obtain ⟨time, unfinished, hrun, rfl⟩ := accountSubdir_eq_some.mp hkid
      obtain ⟨time', unfinished', hrun', rfl⟩ := accountSubdir_eq_some.mp hkid'
      exact ih (hshape.trans (recursUpdate_shape hrun)) (hshape'.trans (recursUpdate_shape hrun'))
        (hsurpasses.max (hrecurs hshape hshape' hrun hrun')) hdirs hdirs'

/-- Where nothing is left to hash, the second time is not only past zero but past the first. -/
theorem recursUpdate_surpasses (hdiffers : DiffersInHashes s s') (hpositive : s.PositiveTimes)
    {depth : Nat} {time time' : Int} {unfinished unfinished' : Bool}
    (hshape : SameShape s t) (hshape' : SameShape s' t')
    (hrun : recursUpdate depth t i = some (time, unfinished, u))
    (hrun' : recursUpdate depth t' i = some (time', unfinished', u')) :
    Surpasses (time, unfinished) (time', unfinished') ∧
      (unfinished = true → unfinished' = false → time < time') := by
  induction depth generalizing t t' i time time' unfinished unfinished' u u' with
  | zero => cases hrun
  | succ depth ih =>
      obtain ⟨d, files, acc, v, e, hdir, hfiles, hdirs, hnode, rfl, rfl, rfl⟩ :=
        recursUpdate_cases hrun
      obtain ⟨d', files', acc', v', e', hdir', hfiles', hdirs', hnode', rfl, rfl, rfl⟩ :=
        recursUpdate_cases hrun'
      obtain ⟨_, hds⟩ := hshape.symm.getDir hdir
      obtain ⟨_, hds'⟩ := hdiffers.dir hds
      obtain ⟨_, hdt'⟩ := hshape'.getDir hds'
      rw [hdir'] at hdt'
      cases hdt'
      rw [hshape.accountFile_eq] at hfiles
      rw [hshape'.accountFile_eq] at hfiles'
      have hself : Surpasses (d.dirModtime, false) (d.dirModtime, false) :=
        ⟨le_rfl, id, fun h => absurd h (by simp)⟩
      have hacc : Surpasses acc acc' := foldlM_accountSubdir_surpasses
        (fun hv hv' hrun hrun' => (ih hv hv' hrun hrun').1) hshape hshape'
        (foldlM_accountFile_surpasses hdiffers hpositive hself hfiles hfiles') hdirs hdirs'
      exact ⟨hacc.reduced, hacc.reducedTime_lt⟩

/-! ### What the friend sees -/

/-- A friend whom the first state told its time is told by the second that this is still the one. -/
def SyncedIsUpToDate (t t' : Storage) (j : Nat) : Prop :=
  ∃ browsable serialiseDirEntry item,
    (syncResponse browsable serialiseDirEntry t j item).flags &&& flagsEntryWasRemoved = 0 ∧
    (syncResponse browsable serialiseDirEntry t' j { item with
      lastKnownRecursModfTS :=
        (syncResponse browsable serialiseDirEntry t j item).lastKnownRecursModfTS }).flags
      &&& flagsEntryUpToDate ≠ 0

theorem itemTime_eq (time : Int) : (itemTime time : Int) = time % 2 ^ 32 :=
  Int.toNat_of_nonneg (Int.emod_nonneg time (by decide))

theorem syncedIsUpToDate_iff {d d' : DirEntry} (hdir : t.node j = some (.dir d))
    (hdir' : t'.node j = some (.dir d')) :
    SyncedIsUpToDate t t' j ↔ d.dirMostRecentTime % 2 ^ 32 = d'.dirMostRecentTime := by
  have hremoved : (flagsSyncResponse ||| flagsEntryWasRemoved) &&& flagsEntryWasRemoved ≠ 0 := by
    decide
  have hcontent : (flagsSyncResponse ||| flagsSyncDirContent) &&& flagsEntryUpToDate = 0 := by
    decide
  have hupToDate : (flagsSyncResponse ||| flagsEntryUpToDate) &&& flagsEntryUpToDate ≠ 0 := by
    decide
  rw [← itemTime_eq]
  constructor
  · rintro ⟨browsable, serialiseDirEntry, item, hkept, hsame⟩
    simp only [syncResponse, getDir_eq_some.mpr hdir, getDir_eq_some.mpr hdir'] at hkept hsame
    by_cases hdenied : j ≠ 0 ∧ !browsable item.peerId j
    · rw [if_pos hdenied] at hkept
      exact absurd hkept hremoved
    · have htold : ∀ ritem ritem' : SyncResponse,
          ritem.lastKnownRecursModfTS = itemTime d.dirMostRecentTime →
          ritem'.lastKnownRecursModfTS = itemTime d.dirMostRecentTime →
          (if (item.lastKnownRecursModfTS : Int) ≠ d.dirMostRecentTime then ritem
            else ritem').lastKnownRecursModfTS = itemTime d.dirMostRecentTime := by
        intro ritem ritem' h h'
        split <;> assumption
      simp only [if_neg hdenied] at hsame
      by_contra hne
      rw [htold _ _ rfl rfl, if_pos hne] at hsame
      exact absurd hcontent hsame
  · intro hsame
    refine ⟨fun _ _ => true, fun _ _ _ => [], ⟨⟨List.replicate 16 0, by simp⟩, nullHash, 0, 0⟩, ?_⟩
    have hallowed : ¬ (j ≠ 0 ∧ !true) := by simp
    simp only [syncResponse, getDir_eq_some.mpr hdir, getDir_eq_some.mpr hdir', if_neg hallowed]
    split
    · rw [if_neg (not_not.mpr hsame)]
      exact ⟨(by decide : (flagsSyncResponse ||| flagsSyncDirContent) &&& flagsEntryWasRemoved = 0),
        hupToDate⟩
    · rw [if_neg (not_not.mpr hsame)]
      exact ⟨(by decide : (flagsSyncResponse ||| flagsEntryUpToDate) &&& flagsEntryWasRemoved = 0),
        hupToDate⟩

/-- Every directory's time stays or grows, and where the last file was hashed it grows, which friends
are told. -/
def HashingShows (s s' : Storage) (top : Nat) : Prop :=
  ∃ time unfinished t time' unfinished' t',
    s.recursUpdateLastModfTime top = some (time, unfinished, t) ∧
    s'.recursUpdateLastModfTime top = some (time', unfinished', t') ∧
    ∀ j, s.AtOrBelow top j → ∃ d d', t.node j = some (.dir d) ∧ t'.node j = some (.dir d') ∧
      d.dirMostRecentTime ≤ d'.dirMostRecentTime ∧
      (s.UnhashedBelow j → ¬ s'.UnhashedBelow j →
        d.dirMostRecentTime < d'.dirMostRecentTime ∧ ¬ SyncedIsUpToDate t t' j)

/-- Where the last file was hashed, the times before were not all before 1970 or the greatest time
now has other low bits than the greatest one then. -/
def NoTimeRepeats (s s' : Storage) (top : Nat) : Prop :=
  ∀ j, s.AtOrBelow top j → s.UnhashedBelow j → ¬ s'.UnhashedBelow j →
    ∀ time time', IsGreatest (s.timesBelow j) time → IsGreatest (s'.timesBelow j) time' →
      time < 0 → time % 2 ^ 32 ≠ time'

/-- The times of one directory after both runs. -/
theorem Timed.surpasses (hdiffers : DiffersInHashes s s') (hpositive : s.PositiveTimes)
    (htimed : Timed s t j) (htimed' : Timed s' t' j) :
    ∃ d d', t.node j = some (.dir d) ∧ t'.node j = some (.dir d') ∧
      d.dirMostRecentTime ≤ d'.dirMostRecentTime ∧
      (s.UnhashedBelow j → ¬ s'.UnhashedBelow j →
        d.dirMostRecentTime < d'.dirMostRecentTime ∧
        ∀ time time', IsGreatest (s.timesBelow j) time → IsGreatest (s'.timesBelow j) time' →
          (SyncedIsUpToDate t t' j ↔ time < 0 ∧ time % 2 ^ 32 = time')) := by
  obtain ⟨depth, d, unfinished, u, hdir, hrun⟩ := htimed
  obtain ⟨depth', d', unfinished', u', hdir', hrun'⟩ := htimed'
  obtain ⟨-, v, hlong, -⟩ := recursUpdate_agrees (Nat.le_max_left depth depth')
    _ _ _ _ _ _ (.refl s) hrun
  obtain ⟨-, v', hlong', -⟩ := recursUpdate_agrees (Nat.le_max_right depth depth')
    _ _ _ _ _ _ (.refl s') hrun'
  obtain ⟨hsurpasses, hlt⟩ := recursUpdate_surpasses hdiffers hpositive (.refl s) (.refl s')
    hlong hlong'
  refine ⟨d, d', hdir, hdir', hsurpasses.le, fun hunhashed hhashed => ?_⟩
  obtain ⟨hiff, largest, hgreatest, hle, heq, hpos⟩ := recursUpdate_accounts (.refl s) hrun
  obtain ⟨hiff', largest', hgreatest', hle', heq', hpos'⟩ := recursUpdate_accounts (.refl s') hrun'
  have hfinished : unfinished' = false := Bool.eq_false_iff.mpr (mt hiff'.mp hhashed)
  have hless : d.dirMostRecentTime < d'.dirMostRecentTime := hlt (hiff.mpr hunhashed) hfinished
  refine ⟨hless, fun time time' htime htime' => ?_⟩
  obtain rfl := hgreatest.unique htime
  obtain rfl := hgreatest'.unique htime'
  rw [syncedIsUpToDate_iff hdir hdir', ← heq' (.inr hfinished)]
  dsimp only at hle heq hpos ⊢
  constructor
  · intro hsame
    have hnegative : d.dirMostRecentTime < 0 := by
      by_contra hnonneg
      omega
    have hlargest : ¬ 0 < largest := fun h => absurd (hpos h) (not_le.mpr hnegative)
    rw [← heq (.inl (not_lt.mp hlargest))]
    exact ⟨hnegative, hsame⟩
  · rintro ⟨hnegative, hsame⟩
    rw [heq (.inl hnegative.le)]
    exact hsame

theorem HashingShows.noTimeRepeats {top : Nat} (hdiffers : DiffersInHashes s s')
    (hpositive : s.PositiveTimes) (hshows : HashingShows s s' top) : NoTimeRepeats s s' top := by
  obtain ⟨_, _, t, _, _, t', hrun, hrun', hall⟩ := hshows
  intro j hbelow hunhashed hhashed time time' htime htime' hnegative hsame
  have htimed := recursUpdateLastModfTime_timed hrun hbelow
  have hbelow' : s'.AtOrBelow top j := by
    rw [AtOrBelow, hdiffers.holdsDir_eq]
    exact hbelow
  obtain ⟨d, d', hdir, hdir', -, hgrows⟩ :=
    htimed.surpasses hdiffers hpositive (recursUpdateLastModfTime_timed hrun' hbelow')
  obtain ⟨-, hiff⟩ := hgrows hunhashed hhashed
  obtain ⟨_, _, -, -, -, hall⟩ := hall j hbelow
  exact (hall hunhashed hhashed).2 ((hiff time time' htime htime').mpr ⟨hnegative, hsame⟩)

theorem NoTimeRepeats.hashingShows {top : Nat} (hier : s.IsHierarchy top)
    (hdiffers : DiffersInHashes s s') (hpositive : s.PositiveTimes)
    (hrepeats : NoTimeRepeats s s' top) : HashingShows s s' top := by
  obtain ⟨time, unfinished, t, hrun⟩ := hier.recursUpdateLastModfTime_exists
  obtain ⟨time', unfinished', t', hrun'⟩ :=
    (hdiffers.isHierarchy hier).recursUpdateLastModfTime_exists
  refine ⟨time, unfinished, t, time', unfinished', t', hrun, hrun', fun j hbelow => ?_⟩
  have htimed := recursUpdateLastModfTime_timed hrun hbelow
  have hbelow' : s'.AtOrBelow top j := by
    rw [AtOrBelow, hdiffers.holdsDir_eq]
    exact hbelow
  have htimed' := recursUpdateLastModfTime_timed hrun' hbelow'
  obtain ⟨d, d', hdir, hdir', hle, hgrows⟩ := htimed.surpasses hdiffers hpositive htimed'
  refine ⟨d, d', hdir, hdir', hle, fun hunhashed hhashed => ?_⟩
  obtain ⟨hlt, hiff⟩ := hgrows hunhashed hhashed
  refine ⟨hlt, fun hsynced => ?_⟩
  obtain ⟨depth, e, _, u, -, hrun⟩ := htimed
  obtain ⟨depth', e', _, u', -, hrun'⟩ := htimed'
  obtain ⟨-, largest, hgreatest, -⟩ := recursUpdate_accounts (.refl s) hrun
  obtain ⟨-, largest', hgreatest', -⟩ := recursUpdate_accounts (.refl s') hrun'
  obtain ⟨hnegative, hsame⟩ := (hiff _ _ hgreatest hgreatest').mp hsynced
  exact hrepeats j hbelow hunhashed hhashed _ _ hgreatest hgreatest' hnegative hsame

/-- **Finished hashing shows.** In every hierarchy whose files have times after 1970, whichever files
are hashed, unless a time before 1970 is followed by one with the same low bits. -/
theorem hashingShows_iff {top : Nat} (hier : s.IsHierarchy top) (hdiffers : DiffersInHashes s s')
    (hpositive : s.PositiveTimes) : HashingShows s s' top ↔ NoTimeRepeats s s' top :=
  ⟨fun hshows => hshows.noTimeRepeats hdiffers hpositive,
    fun hrepeats => hrepeats.hashingShows hier hdiffers hpositive⟩

/-! ### One file -/

/-- A hierarchy with one directory and one file in it. -/
def datedFile (dirTime fileTime : Int) (hash : FileHash) : Storage :=
  { Storage.new with mNodes := [
      some (.dir { DirEntry.new [] with subfiles := [1], dirModtime := dirTime }),
      some (.file (.new [97] 1 fileTime hash))] }

def someHash : FileHash := ⟨List.replicate 20 1, List.length_replicate⟩

section DatedFile

variable {dirTime fileTime : Int} {hash : FileHash}

theorem datedFile_atOrBelow : (datedFile dirTime fileTime hash).AtOrBelow 0 j ↔ j = 0 := by
  rw [atOrBelow_iff (rfl : (datedFile dirTime fileTime hash).node 0 = _)]
  simp [DirEntry.new]

theorem datedFile_isHierarchy : (datedFile dirTime fileTime hash).IsHierarchy 0 where
  dir i hi := by
    obtain rfl := datedFile_atOrBelow.mp hi
    exact ⟨_, rfl⟩
  file i d kid hi hdir hkid := by
    obtain rfl := datedFile_atOrBelow.mp hi
    cases hdir
    obtain rfl := List.mem_singleton.mp hkid
    exact ⟨_, rfl⟩
  acyclic i hi hcycle := by
    obtain rfl := datedFile_atOrBelow.mp hi
    obtain ⟨kid, ⟨d, hdir, hkid⟩, -⟩ := Relation.TransGen.head'_iff.mp hcycle
    cases hdir
    exact absurd hkid List.not_mem_nil

theorem datedFile_differsInHashes :
    DiffersInHashes (datedFile dirTime fileTime nullHash) (datedFile dirTime fileTime someHash)
  | 0 => .dir _ _
  | 1 => .hashed _ someHash rfl (by decide)
  | _ + 2 => .absent

theorem datedFile_positiveTimes (hpos : 0 < fileTime) :
    (datedFile dirTime fileTime hash).PositiveTimes
  | 1, _, rfl => hpos

theorem datedFile_unhashedBelow :
    (datedFile dirTime fileTime hash).UnhashedBelow 0 ↔ hash = nullHash := by
  constructor
  · rintro ⟨j, d, hj, hdir, kid, hkid, fe, hfile, hnull⟩
    obtain rfl := datedFile_atOrBelow.mp hj
    cases hdir
    obtain rfl := List.mem_singleton.mp hkid
    cases hfile
    exact hnull
  · rintro rfl
    exact ⟨0, _, .refl, rfl, 1, List.mem_singleton_self 1, _, rfl, rfl⟩

theorem datedFile_timesBelow : (datedFile dirTime fileTime hash).timesBelow 0 =
    {time | dirTime = time ∨ hash ≠ nullHash ∧ fileTime = time} := by
  ext time
  constructor
  · rintro ⟨j, d, hj, hdir, htime⟩
    obtain rfl := datedFile_atOrBelow.mp hj
    cases hdir
    refine htime.imp id ?_
    rintro ⟨kid, hkid, fe, hfile, hhash, htime⟩
    obtain rfl := List.mem_singleton.mp hkid
    cases hfile
    exact ⟨hhash, htime⟩
  · intro htime
    refine ⟨0, _, .refl, rfl, htime.imp id fun h => ?_⟩
    exact ⟨1, List.mem_singleton_self 1, _, rfl, h⟩

end DatedFile

/-- The directory is from 1887, the file from 2023. -/
theorem hashingShows_counterexample : ∃ s s' : Storage, s.IsHierarchy 0 ∧ DiffersInHashes s s' ∧
    s.PositiveTimes ∧ ¬ HashingShows s s' 0 := by
  have hpositive : (datedFile (-2600000000) 1694967296 nullHash).PositiveTimes :=
    datedFile_positiveTimes (by decide)
  refine ⟨datedFile (-2600000000) 1694967296 nullHash, datedFile (-2600000000) 1694967296 someHash,
    datedFile_isHierarchy, datedFile_differsInHashes, hpositive, fun hshows => ?_⟩
  refine hshows.noTimeRepeats datedFile_differsInHashes hpositive 0 .refl
    (datedFile_unhashedBelow.mpr rfl) (mt datedFile_unhashedBelow.mp (by decide))
    (-2600000000) 1694967296 ?_ ?_ (by decide) (by decide)
  · rw [datedFile_timesBelow]
    exact ⟨.inl rfl, fun time htime => (htime.resolve_right fun h => h.1 rfl).ge⟩
  · rw [datedFile_timesBelow]
    refine ⟨.inr ⟨by decide, rfl⟩, ?_⟩
    rintro time (rfl | ⟨-, rfl⟩)
    · decide
    · exact le_rfl

theorem hashingShows_datedFile :
    HashingShows (datedFile 5 7 nullHash) (datedFile 5 7 someHash) 0 := by
  refine (hashingShows_iff datedFile_isHierarchy datedFile_differsInHashes
    (datedFile_positiveTimes (by decide))).mpr ?_
  intro j hj _ _ time time' htime _ hnegative
  obtain rfl := datedFile_atOrBelow.mp hj
  rw [datedFile_timesBelow] at htime
  have : 5 ≤ time := htime.2 (.inl rfl)
  omega

end Storage

end RetroShare.FileSharing
