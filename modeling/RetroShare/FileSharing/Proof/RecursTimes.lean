import RetroShare.FileSharing.RecursTimes
import RetroShare.FileSharing.Proof.Table
import Mathlib.Order.Bounds.Basic

/-!
# Hashing shows in the recursive times

When files that had no hash get one, no directory's time goes back, and the time of a directory whose
last unfinished file was hashed moves on. A friend asks with 32 bits of the time, which are other
bits than those of the new time unless the old time is before 1970.
-/

namespace RetroShare.FileSharing

/-! ### What the recursion leaves alone -/

/-- A node without the time that the recursion writes. -/
def Node.untimed : Node → Node
  | .file fe => .file fe
  | .dir d => .dir { d with dirMostRecentTime := 0 }

namespace Storage

variable {s s' t t' u : Storage} {i j : Nat}

def SameShape (s t : Storage) : Prop :=
  ∀ i, (t.node i).map Node.untimed = (s.node i).map Node.untimed

theorem SameShape.refl (s : Storage) : SameShape s s := fun _ => rfl

theorem SameShape.symm (hshape : SameShape s t) : SameShape t s := fun i => (hshape i).symm

theorem SameShape.trans (hst : SameShape s t) (htu : SameShape t u) : SameShape s u :=
  fun i => (htu i).trans (hst i)

theorem SameShape.getFile_eq (hshape : SameShape s t) (i : Nat) : t.getFile i = s.getFile i := by
  have hnode := hshape i
  unfold getFile
  cases hs : s.node i with
  | none => rw [hs] at hnode; rw [Option.map_eq_none_iff.mp hnode]
  | some n =>
      rw [hs] at hnode
      obtain ⟨m, ht, hm⟩ := Option.map_eq_some_iff.mp hnode
      rw [ht]
      cases n <;> cases m <;> simp_all [Node.untimed]

theorem SameShape.accountFile_eq (hshape : SameShape s t) : t.accountFile = s.accountFile := by
  funext acc kid
  rw [accountFile, accountFile, hshape.getFile_eq]

theorem SameShape.getDir (hshape : SameShape s t) {d : DirEntry} (hdir : s.node i = some (.dir d)) :
    ∃ time, t.node i = some (.dir { d with dirMostRecentTime := time }) := by
  have hnode := hshape i
  rw [hdir] at hnode
  obtain ⟨m, ht, hm⟩ := Option.map_eq_some_iff.mp hnode
  cases m with
  | file fe => cases hm
  | dir e =>
      refine ⟨e.dirMostRecentTime, ht.trans ?_⟩
      cases d
      cases e
      simp_all [Node.untimed]

theorem SameShape.setTime (hshape : SameShape s t) {d : DirEntry} (hdir : t.node i = some (.dir d))
    (time : Int) :
    SameShape s (t.setNode i (some (.dir { d with dirMostRecentTime := time }))) := by
  intro j
  refine Eq.trans ?_ (hshape j)
  by_cases hj : j = i
  · subst hj
    rw [node_setNode_self _ (lt_length_of_node hdir), hdir]
    rfl
  · rw [node_setNode_ne _ hj]

/-! ### One call -/

theorem recursUpdate_cases {depth : Nat} {time : Int} {unfinished : Bool}
    (hrun : recursUpdate (depth + 1) s i = some (time, unfinished, t)) :
    ∃ d files acc u e, s.node i = some (.dir d) ∧
      d.subfiles.foldlM s.accountFile (d.dirModtime, false) = some files ∧
      d.subdirs.foldlM (accountSubdir (recursUpdate depth)) (files, s) = some (acc, u) ∧
      u.node i = some (.dir e) ∧ time = reducedTime acc ∧ unfinished = acc.2 ∧
      t = u.setNode i (some (.dir { e with dirMostRecentTime := reducedTime acc })) := by
  obtain ⟨d, hget, hrun⟩ := Option.bind_eq_some_iff.mp hrun
  obtain ⟨files, hfiles, hrun⟩ := Option.bind_eq_some_iff.mp hrun
  obtain ⟨⟨acc, u⟩, hdirs, hrun⟩ := Option.bind_eq_some_iff.mp hrun
  obtain ⟨v, hmodify, hrun⟩ := Option.bind_eq_some_iff.mp hrun
  obtain ⟨e, hnode, rfl⟩ := modifyDir_eq_some hmodify
  cases hrun
  exact ⟨d, files, acc, u, e, getDir_eq_some.mp hget, hfiles, hdirs, hnode, rfl, rfl, rfl⟩

theorem recursUpdate_intro {depth : Nat} {d e : DirEntry} {files acc : Int × Bool}
    (hdir : s.node i = some (.dir d))
    (hfiles : d.subfiles.foldlM s.accountFile (d.dirModtime, false) = some files)
    (hdirs : d.subdirs.foldlM (accountSubdir (recursUpdate depth)) (files, s) = some (acc, u))
    (hnode : u.node i = some (.dir e)) :
    recursUpdate (depth + 1) s i = some (reducedTime acc, acc.2,
      u.setNode i (some (.dir { e with dirMostRecentTime := reducedTime acc }))) := by
  simp only [recursUpdate, getDir_eq_some.mpr hdir, hfiles, hdirs, modifyDir,
    getDir_eq_some.mpr hnode, Option.map_some, Option.bind_eq_bind, Option.bind_some,
    Option.pure_def]

theorem accountSubdir_eq_some {recurs : Storage → Nat → Option (Int × Bool × Storage)}
    {acc acc' : (Int × Bool) × Storage} :
    accountSubdir recurs acc j = some acc' ↔ ∃ time unfinished,
      recurs acc.2 j = some (time, unfinished, acc'.2) ∧
      acc'.1 = (max acc.1.1 time, acc.1.2 || unfinished) := by
  constructor
  · intro h
    obtain ⟨⟨time, unfinished, t⟩, hrun, rfl⟩ := Option.map_eq_some_iff.mp h
    exact ⟨time, unfinished, hrun, rfl⟩
  · rintro ⟨time, unfinished, hrun, hacc⟩
    simp [accountSubdir, hrun, ← hacc]

/-! ### One outcome -/

/-- The second function does at least what the first does, on states of one shape. -/
def Agrees (recurs recurs' : Storage → Nat → Option (Int × Bool × Storage)) : Prop :=
  ∀ s s' t i time unfinished, SameShape s s' → recurs s i = some (time, unfinished, t) →
    SameShape s t ∧ ∃ t', recurs' s' i = some (time, unfinished, t') ∧ SameShape s t'

theorem Agrees.foldlM {recurs recurs' : Storage → Nat → Option (Int × Bool × Storage)}
    (hagrees : Agrees recurs recurs') {kids : List Nat} {acc acc' : Int × Bool}
    (hshape : SameShape s s')
    (hdirs : kids.foldlM (accountSubdir recurs) (acc, s) = some (acc', t)) :
    SameShape s t ∧ ∃ t', kids.foldlM (accountSubdir recurs') (acc, s') = some (acc', t') ∧
      SameShape s t' := by
  induction kids generalizing s s' acc with
  | nil =>
      cases hdirs
      exact ⟨.refl _, s', rfl, hshape⟩
  | cons kid kids ih =>
      rw [List.foldlM_cons] at hdirs
      obtain ⟨⟨mid, u⟩, hkid, hdirs⟩ := Option.bind_eq_some_iff.mp hdirs
      obtain ⟨time, unfinished, hrun, hmid⟩ := accountSubdir_eq_some.mp hkid
      obtain ⟨hsu, u', hrun', hsu'⟩ := hagrees _ _ _ _ _ _ hshape hrun
      obtain ⟨hut, t', hdirs', hut'⟩ := ih (hsu.symm.trans hsu') hdirs
      refine ⟨hsu.trans hut, t', ?_, hsu.trans hut'⟩
      have hkid' : accountSubdir recurs' (acc, s') kid = some (mid, u') :=
        accountSubdir_eq_some.mpr ⟨time, unfinished, hrun', hmid⟩
      rw [List.foldlM_cons, hkid']
      exact hdirs'

/-- More room for the recursion, or other times in the table, make no difference. -/
theorem recursUpdate_agrees {depth depth' : Nat} (hle : depth ≤ depth') :
    Agrees (recursUpdate depth) (recursUpdate depth') := by
  induction depth generalizing depth' with
  | zero => intro s s' t i time unfinished _ hrun; cases hrun
  | succ depth ih =>
      intro s s' t i time unfinished hshape hrun
      obtain ⟨depth', rfl⟩ : ∃ n, depth' = n + 1 := ⟨depth' - 1, by omega⟩
      obtain ⟨d, files, acc, u, e, hdir, hfiles, hdirs, hnode, rfl, rfl, rfl⟩ :=
        recursUpdate_cases hrun
      obtain ⟨hsu, u', hdirs', hsu'⟩ := (ih (Nat.le_of_succ_le_succ hle)).foldlM hshape hdirs
      obtain ⟨time, hdir'⟩ := hshape.getDir hdir
      obtain ⟨time', hnode'⟩ := hsu'.getDir hdir
      rw [← hshape.accountFile_eq] at hfiles
      exact ⟨hsu.setTime hnode _, _, recursUpdate_intro hdir' hfiles hdirs' hnode',
        hsu'.setTime hnode' _⟩

theorem recursUpdate_shape {depth : Nat} {time : Int} {unfinished : Bool}
    (hrun : recursUpdate depth s i = some (time, unfinished, t)) : SameShape s t :=
  (recursUpdate_agrees le_rfl _ _ _ _ _ _ (.refl s) hrun).1

/-- The recursion gives one time to a directory, whatever the room and the times in the table. -/
theorem recursUpdate_unique {depth depth' : Nat} {time time' : Int} {unfinished unfinished' : Bool}
    (hshape : SameShape s s') (hrun : recursUpdate depth s i = some (time, unfinished, t))
    (hrun' : recursUpdate depth' s' i = some (time', unfinished', t')) :
    time' = time ∧ unfinished' = unfinished := by
  obtain hle | hle := Nat.le_total depth depth'
  · obtain ⟨-, v, hv, -⟩ := recursUpdate_agrees hle _ _ _ _ _ _ hshape hrun
    rw [hrun'] at hv
    cases hv
    exact ⟨rfl, rfl⟩
  · obtain ⟨-, v, hv, -⟩ := recursUpdate_agrees hle _ _ _ _ _ _ hshape.symm hrun'
    rw [hrun] at hv
    cases hv
    exact ⟨rfl, rfl⟩

/-! ### Hierarchies -/

def HoldsDir (s : Storage) (i kid : Nat) : Prop := ∃ d, s.node i = some (.dir d) ∧ kid ∈ d.subdirs

/-- The directory itself and those under it. -/
def AtOrBelow (s : Storage) : Nat → Nat → Prop := Relation.ReflTransGen s.HoldsDir

structure IsHierarchy (s : Storage) (top : Nat) : Prop where
  dir : ∀ i, s.AtOrBelow top i → ∃ d, s.node i = some (.dir d)
  file : ∀ i d kid, s.AtOrBelow top i → s.node i = some (.dir d) → kid ∈ d.subfiles →
    ∃ fe, s.node kid = some (.file fe)
  acyclic : ∀ i, s.AtOrBelow top i → ¬ Relation.TransGen s.HoldsDir i i

theorem IsHierarchy.below (hier : s.IsHierarchy i) (hbelow : s.AtOrBelow i j) :
    s.IsHierarchy j where
  dir k hk := hier.dir k (hbelow.trans hk)
  file k d kid hk := hier.file k d kid (hbelow.trans hk)
  acyclic k hk := hier.acyclic k (hbelow.trans hk)

theorem foldlM_accountFile_exists {kids : List Nat} (acc : Int × Bool)
    (hfile : ∀ kid ∈ kids, ∃ fe, s.node kid = some (.file fe)) :
    ∃ acc', kids.foldlM s.accountFile acc = some acc' := by
  induction kids generalizing acc with
  | nil => exact ⟨acc, rfl⟩
  | cons kid kids ih =>
      obtain ⟨fe, hkid⟩ := hfile kid List.mem_cons_self
      rw [List.foldlM_cons, accountFile, getFile_eq_some.mpr hkid]
      exact ih _ fun k hk => hfile k (List.mem_cons_of_mem _ hk)

theorem foldlM_accountSubdir_exists {recurs : Storage → Nat → Option (Int × Bool × Storage)}
    {kids : List Nat} (acc : Int × Bool) (hshape : SameShape s t)
    (hrecurs : ∀ kid ∈ kids, ∀ u, SameShape s u →
      ∃ time unfinished v, recurs u kid = some (time, unfinished, v) ∧ SameShape s v) :
    ∃ acc' u, kids.foldlM (accountSubdir recurs) (acc, t) = some (acc', u) ∧ SameShape s u := by
  induction kids generalizing acc t with
  | nil => exact ⟨acc, t, rfl, hshape⟩
  | cons kid kids ih =>
      obtain ⟨time, unfinished, v, hrun, hv⟩ := hrecurs kid List.mem_cons_self t hshape
      have hkid : accountSubdir recurs (acc, t) kid =
          some ((max acc.1 time, acc.2 || unfinished), v) :=
        accountSubdir_eq_some.mpr ⟨time, unfinished, hrun, rfl⟩
      rw [List.foldlM_cons, hkid]
      exact ih _ hv fun k hk => hrecurs k (List.mem_cons_of_mem _ hk)

/-- The directories on the way down are distinct, so there is room for all of them. -/
theorem IsHierarchy.recursUpdate_exists {depth : Nat} {path : List Nat} (hier : s.IsHierarchy i)
    (hnodup : (i :: path).Nodup) (hlt : ∀ k ∈ path, k < s.mNodes.length)
    (habove : ∀ k ∈ path, Relation.TransGen s.HoldsDir k i)
    (hroom : s.mNodes.length ≤ depth + path.length) :
    ∃ time unfinished t, recursUpdate depth s i = some (time, unfinished, t) := by
  induction depth generalizing i path with
  | zero =>
      obtain ⟨d, hdir⟩ := hier.dir i .refl
      have hall : ∀ k ∈ i :: path, k ∈ List.range s.mNodes.length := by
        intro k hk
        rw [List.mem_range]
        obtain rfl | hk := List.mem_cons.mp hk
        · exact lt_length_of_node hdir
        · exact hlt k hk
      have := (hnodup.subperm hall).length_le
      rw [List.length_cons, List.length_range] at this
      omega
  | succ depth ih =>
      obtain ⟨d, hdir⟩ := hier.dir i .refl
      obtain ⟨files, hfiles⟩ := foldlM_accountFile_exists (d.dirModtime, false) fun kid hkid =>
        hier.file i d kid .refl hdir hkid
      have hkids : ∀ kid ∈ d.subdirs, ∀ u, SameShape s u →
          ∃ time unfinished v, recursUpdate depth u kid = some (time, unfinished, v) ∧
            SameShape s v := by
        intro kid hkid u hshape
        have hholds : s.HoldsDir i kid := ⟨d, hdir, hkid⟩
        have hfresh : kid ∉ i :: path := by
          intro hmem
          refine hier.acyclic kid (.single hholds) ?_
          obtain rfl | hmem := List.mem_cons.mp hmem
          · exact .single hholds
          · exact (habove kid hmem).tail hholds
        obtain ⟨time, unfinished, v, hrun⟩ := ih (hier.below (.single hholds))
          (List.nodup_cons.mpr ⟨hfresh, hnodup⟩)
          (fun k hk => by
            obtain rfl | hk := List.mem_cons.mp hk
            · exact lt_length_of_node hdir
            · exact hlt k hk)
          (fun k hk => by
            obtain rfl | hk := List.mem_cons.mp hk
            · exact .single hholds
            · exact (habove k hk).tail hholds)
          (by rw [List.length_cons]; omega)
        obtain ⟨-, v', hrun', hshape'⟩ := recursUpdate_agrees le_rfl _ _ _ _ _ _ hshape hrun
        exact ⟨time, unfinished, v', hrun', hshape'⟩
      obtain ⟨acc, u, hdirs, hshape⟩ := foldlM_accountSubdir_exists files (.refl s) hkids
      obtain ⟨time, hnode⟩ := hshape.getDir hdir
      exact ⟨_, _, _, recursUpdate_intro hdir hfiles hdirs hnode⟩

theorem IsHierarchy.recursUpdateLastModfTime_exists (hier : s.IsHierarchy i) :
    ∃ time unfinished t, s.recursUpdateLastModfTime i = some (time, unfinished, t) :=
  hier.recursUpdate_exists (List.nodup_singleton i) (fun _ hk => absurd hk List.not_mem_nil)
    (fun _ hk => absurd hk List.not_mem_nil) le_rfl

/-! ### The times in the table -/

/-- The table has the time of the directory that the recursion gives it. -/
def Timed (s t : Storage) (j : Nat) : Prop :=
  ∃ depth d unfinished u, t.node j = some (.dir d) ∧
    recursUpdate depth s j = some (d.dirMostRecentTime, unfinished, u)

theorem Timed.congr (htimed : Timed s t j) (hnode : u.node j = t.node j) : Timed s u j := by
  obtain ⟨depth, d, unfinished, v, hdir, hrun⟩ := htimed
  exact ⟨depth, d, unfinished, v, hnode.trans hdir, hrun⟩

/-- Times are written by the recursion only, and to every directory it goes through. -/
structure Times (s t : Storage) (written : Nat → Prop) (t' : Storage) : Prop where
  timed : ∀ j, written j → Timed s t' j
  kept : ∀ j, t'.node j = t.node j ∨ Timed s t' j

theorem Times.trans {written written' : Nat → Prop} (hfirst : Times s t written u)
    (hsecond : Times s u written' t') : Times s t (fun j => written j ∨ written' j) t' where
  timed j hj := by
    obtain hj | hj := hj
    · obtain hsame | htimed := hsecond.kept j
      · exact (hfirst.timed j hj).congr hsame
      · exact htimed
    · exact hsecond.timed j hj
  kept j := by
    obtain hsame | htimed := hsecond.kept j
    · obtain hsame' | htimed := hfirst.kept j
      · exact .inl (hsame.trans hsame')
      · exact .inr (htimed.congr hsame)
    · exact .inr htimed

theorem foldlM_accountSubdir_times {depth : Nat} {kids : List Nat} {acc acc' : Int × Bool}
    (hrecurs : ∀ kid ∈ kids, ∀ {u v time unfinished}, SameShape s u →
      recursUpdate depth u kid = some (time, unfinished, v) → Times s u (s.AtOrBelow kid) v)
    (hshape : SameShape s t)
    (hdirs : kids.foldlM (accountSubdir (recursUpdate depth)) (acc, t) = some (acc', t')) :
    Times s t (fun j => ∃ kid ∈ kids, s.AtOrBelow kid j) t' := by
  induction kids generalizing t acc with
  | nil =>
      cases hdirs
      exact ⟨fun j hj => absurd hj (by simp), fun j => .inl rfl⟩
  | cons kid kids ih =>
      rw [List.foldlM_cons] at hdirs
      obtain ⟨⟨mid, u⟩, hkid, hdirs⟩ := Option.bind_eq_some_iff.mp hdirs
      obtain ⟨time, unfinished, hrun, -⟩ := accountSubdir_eq_some.mp hkid
      have hfirst := hrecurs kid List.mem_cons_self hshape hrun
      have hsecond := ih (fun k hk => hrecurs k (List.mem_cons_of_mem _ hk))
        (hshape.trans (recursUpdate_shape hrun)) hdirs
      obtain ⟨htimed, hkept⟩ := hfirst.trans hsecond
      refine ⟨fun j hj => htimed j ?_, hkept⟩
      obtain ⟨k, hk, hbelow⟩ := hj
      obtain rfl | hk := List.mem_cons.mp hk
      · exact .inl hbelow
      · exact .inr ⟨k, hk, hbelow⟩

theorem recursUpdate_times {depth : Nat} {time : Int} {unfinished : Bool} (hshape : SameShape s t)
    (hrun : recursUpdate depth t i = some (time, unfinished, t')) :
    Times s t (s.AtOrBelow i) t' := by
  induction depth generalizing t t' i time unfinished with
  | zero => cases hrun
  | succ depth ih =>
      obtain ⟨-, v, hrun', -⟩ := recursUpdate_agrees le_rfl _ _ _ _ _ _ hshape.symm hrun
      obtain ⟨d, files, acc, u, e, hdir, hfiles, hdirs, hnode, rfl, rfl, rfl⟩ :=
        recursUpdate_cases hrun
      obtain ⟨htimed, hkept⟩ := foldlM_accountSubdir_times (fun kid _ _ _ _ _ => ih) hshape hdirs
      have hself : Timed s
          (u.setNode i (some (.dir { e with dirMostRecentTime := reducedTime acc }))) i :=
        ⟨depth + 1, _, _, v, node_setNode_self _ (lt_length_of_node hnode), hrun'⟩
      have hother : ∀ j, j ≠ i → Timed s u j → Timed s
          (u.setNode i (some (.dir { e with dirMostRecentTime := reducedTime acc }))) j :=
        fun j hj htimed => htimed.congr (node_setNode_ne _ hj)
      constructor
      case timed =>
        intro j hbelow
        by_cases hj : j = i
        · exact hj ▸ hself
        · obtain rfl | ⟨kid, ⟨d', hdir', hkid⟩, hbelow⟩ := hbelow.cases_head
          · exact absurd rfl hj
          · obtain ⟨time, hdir''⟩ := hshape.getDir hdir'
            rw [hdir] at hdir''
            cases hdir''
            exact hother j hj (htimed j ⟨kid, hkid, hbelow⟩)
      case kept =>
        intro j
        by_cases hj : j = i
        · exact .inr (hj ▸ hself)
        · obtain hsame | htimed := hkept j
          · exact .inl ((node_setNode_ne _ hj).trans hsame)
          · exact .inr (hother j hj htimed)

/-- After a run, every directory it went through has the time that a run for that directory gives. -/
theorem recursUpdateLastModfTime_timed {time : Int} {unfinished : Bool}
    (hrun : s.recursUpdateLastModfTime i = some (time, unfinished, t)) (hbelow : s.AtOrBelow i j) :
    Timed s t j :=
  (recursUpdate_times (.refl s) hrun).timed j hbelow

/-! ### What a time stands for -/

def fileTimes (s : Storage) (kids : List Nat) : Set Int :=
  {time | ∃ kid ∈ kids, ∃ fe, s.node kid = some (.file fe) ∧ fe.fileHash ≠ nullHash ∧
    fe.fileModtime = time}

def HasUnhashed (s : Storage) (kids : List Nat) : Prop :=
  ∃ kid ∈ kids, ∃ fe, s.node kid = some (.file fe) ∧ fe.fileHash = nullHash

/-- The modification times of the directories at or below one, and of the hashed files in them. -/
def timesBelow (s : Storage) (i : Nat) : Set Int :=
  {time | ∃ j d, s.AtOrBelow i j ∧ s.node j = some (.dir d) ∧
    (d.dirModtime = time ∨ time ∈ s.fileTimes d.subfiles)}

def UnhashedBelow (s : Storage) (i : Nat) : Prop :=
  ∃ j d, s.AtOrBelow i j ∧ s.node j = some (.dir d) ∧ s.HasUnhashed d.subfiles

/-- A time that was reduced while files were missing, but not below zero. -/
structure Accounts (times : Set Int) (unhashed : Prop) (acc : Int × Bool) : Prop where
  unfinished_iff : acc.2 = true ↔ unhashed
  greatest : ∃ largest, IsGreatest times largest ∧ acc.1 ≤ largest ∧
    (largest ≤ 0 ∨ acc.2 = false → acc.1 = largest) ∧ (0 < largest → 0 ≤ acc.1)

theorem Accounts.single (time : Int) : Accounts {time} False (time, false) where
  unfinished_iff := by simp
  greatest := ⟨time, isGreatest_singleton, le_rfl, fun _ => rfl, fun h => h.le⟩

theorem Accounts.reduced {times : Set Int} {unhashed : Prop} {acc : Int × Bool}
    (haccounts : Accounts times unhashed acc) :
    Accounts times unhashed (reducedTime acc, acc.2) := by
  obtain ⟨hiff, largest, hgreatest, hle, heq, hpos⟩ := haccounts
  refine ⟨hiff, largest, hgreatest, ?_⟩
  unfold reducedTime
  dsimp only
  split
  case isTrue hreduce =>
    refine ⟨by omega, fun h => ?_, fun _ => by omega⟩
    obtain hlargest | hfinished := h
    · omega
    · exact absurd (hfinished.symm.trans hreduce.1) (by decide)
  case isFalse => exact ⟨hle, heq, hpos⟩

theorem Accounts.union {times times' : Set Int} {unhashed unhashed' : Prop}
    {acc result : Int × Bool} (haccounts : Accounts times unhashed acc)
    (hresult : Accounts times' unhashed' result) :
    Accounts (times ∪ times') (unhashed ∨ unhashed') (max acc.1 result.1, acc.2 || result.2) := by
  obtain ⟨hiff, largest, hgreatest, hle, heq, hpos⟩ := haccounts
  obtain ⟨hiff', largest', hgreatest', hle', heq', hpos'⟩ := hresult
  refine ⟨by rw [Bool.or_eq_true, hiff, hiff'], max largest largest', hgreatest.union hgreatest',
    max_le_max hle hle', fun h => ?_, fun h => ?_⟩
  · obtain hlargest | hfinished := h
    · rw [max_le_iff] at hlargest
      rw [heq (.inl hlargest.1), heq' (.inl hlargest.2)]
    · rw [Bool.or_eq_false_iff] at hfinished
      rw [heq (.inr hfinished.1), heq' (.inr hfinished.2)]
  · obtain h | h := lt_max_iff.mp h
    · exact le_max_of_le_left (hpos h)
    · exact le_max_of_le_right (hpos' h)

theorem Accounts.congr {times times' : Set Int} {unhashed unhashed' : Prop} {acc : Int × Bool}
    (haccounts : Accounts times unhashed acc) (htimes : times' = times)
    (hunhashed : unhashed' ↔ unhashed) : Accounts times' unhashed' acc :=
  ⟨haccounts.unfinished_iff.trans hunhashed.symm, htimes ▸ haccounts.greatest⟩

theorem foldlM_accountFile_accounts {kids : List Nat} {times : Set Int} {unhashed : Prop}
    {acc acc' : Int × Bool} (haccounts : Accounts times unhashed acc)
    (hfiles : kids.foldlM s.accountFile acc = some acc') :
    Accounts (times ∪ s.fileTimes kids) (unhashed ∨ s.HasUnhashed kids) acc' := by
  induction kids generalizing acc times unhashed with
  | nil =>
      cases hfiles
      exact haccounts.congr (by simp [fileTimes]) (by simp [HasUnhashed])
  | cons kid kids ih =>
      rw [List.foldlM_cons] at hfiles
      obtain ⟨mid, hkid, hfiles⟩ := Option.bind_eq_some_iff.mp hfiles
      obtain ⟨fe, hget, rfl⟩ := Option.map_eq_some_iff.mp hkid
      have hnode := getFile_eq_some.mp hget
      by_cases hhash : fe.fileHash = nullHash
      · rw [if_neg (not_not.mpr hhash)] at hfiles
        have hmid : Accounts times True (acc.1, true) := by
          obtain ⟨-, largest, hgreatest, hle, heq, hpos⟩ := haccounts
          exact ⟨by simp, largest, hgreatest, hle,
            fun h => heq (.inl (h.resolve_right (by simp))), hpos⟩
        refine (ih hmid hfiles).congr ?_ ?_
        · have : s.fileTimes (kid :: kids) = s.fileTimes kids := by
            ext time
            simp [fileTimes, hnode, hhash]
          rw [this]
        · simp [HasUnhashed, hnode, hhash]
      · rw [if_pos hhash] at hfiles
        have hmid : Accounts (times ∪ {fe.fileModtime}) (unhashed ∨ False)
            (max acc.1 fe.fileModtime, acc.2 || false) :=
          haccounts.union (.single fe.fileModtime)
        rw [Bool.or_false, or_false] at hmid
        refine (ih hmid hfiles).congr ?_ ?_
        · have : s.fileTimes (kid :: kids) = {fe.fileModtime} ∪ s.fileTimes kids := by
            ext time
            have : time = fe.fileModtime ↔ fe.fileModtime = time := eq_comm
            simp [fileTimes, hnode, hhash, this]
          rw [this, Set.union_assoc]
        · simp [HasUnhashed, hnode, hhash]

theorem foldlM_accountSubdir_accounts {depth : Nat} {kids : List Nat} {times : Set Int}
    {unhashed : Prop} {acc acc' : Int × Bool}
    (hrecurs : ∀ kid ∈ kids, ∀ {u v time unfinished}, SameShape s u →
      recursUpdate depth u kid = some (time, unfinished, v) →
        Accounts (s.timesBelow kid) (s.UnhashedBelow kid) (time, unfinished))
    (hshape : SameShape s t) (haccounts : Accounts times unhashed acc)
    (hdirs : kids.foldlM (accountSubdir (recursUpdate depth)) (acc, t) = some (acc', t')) :
    Accounts (times ∪ {time | ∃ kid ∈ kids, time ∈ s.timesBelow kid})
      (unhashed ∨ ∃ kid ∈ kids, s.UnhashedBelow kid) acc' := by
  induction kids generalizing t acc times unhashed with
  | nil =>
      cases hdirs
      exact haccounts.congr (by simp) (by simp)
  | cons kid kids ih =>
      rw [List.foldlM_cons] at hdirs
      obtain ⟨⟨mid, u⟩, hkid, hdirs⟩ := Option.bind_eq_some_iff.mp hdirs
      obtain ⟨time, unfinished, hrun, rfl⟩ := accountSubdir_eq_some.mp hkid
      have hmid := haccounts.union (hrecurs kid List.mem_cons_self hshape hrun)
      refine (ih (fun k hk => hrecurs k (List.mem_cons_of_mem _ hk))
        (hshape.trans (recursUpdate_shape hrun)) hmid hdirs).congr ?_ ?_
      · ext time
        simp [or_assoc]
      · simp only [List.exists_mem_cons_iff, or_assoc]

theorem atOrBelow_iff {d : DirEntry} (hdir : s.node i = some (.dir d)) :
    s.AtOrBelow i j ↔ j = i ∨ ∃ kid ∈ d.subdirs, s.AtOrBelow kid j := by
  constructor
  · intro hbelow
    obtain rfl | ⟨kid, ⟨d', hdir', hkid⟩, hbelow⟩ := hbelow.cases_head
    · exact .inl rfl
    · rw [hdir] at hdir'
      cases hdir'
      exact .inr ⟨kid, hkid, hbelow⟩
  · rintro (rfl | ⟨kid, hkid, hbelow⟩)
    · exact .refl
    · exact Relation.ReflTransGen.head ⟨d, hdir, hkid⟩ hbelow

/-- The time of a directory is the greatest time at or below it, except while it is reduced. -/
theorem recursUpdate_accounts {depth : Nat} {time : Int} {unfinished : Bool}
    (hshape : SameShape s t) (hrun : recursUpdate depth t i = some (time, unfinished, t')) :
    Accounts (s.timesBelow i) (s.UnhashedBelow i) (time, unfinished) := by
  induction depth generalizing t t' i time unfinished with
  | zero => cases hrun
  | succ depth ih =>
      obtain ⟨d, files, acc, u, e, hdir, hfiles, hdirs, hnode, rfl, rfl, rfl⟩ :=
        recursUpdate_cases hrun
      rw [hshape.accountFile_eq] at hfiles
      have hall := foldlM_accountSubdir_accounts (fun kid _ _ _ _ _ => ih) hshape
        (foldlM_accountFile_accounts (.single d.dirModtime) hfiles) hdirs
      obtain ⟨time, hdir'⟩ := hshape.symm.getDir hdir
      refine hall.reduced.congr ?_ ?_
      · ext time
        constructor
        · rintro ⟨j, d', hbelow, hj, htime⟩
          obtain rfl | ⟨kid, hkid, hbelow⟩ := (atOrBelow_iff hdir').mp hbelow
          · rw [hdir'] at hj
            cases hj
            exact .inl (htime.imp (fun h => h.symm) id)
          · exact .inr ⟨kid, hkid, j, d', hbelow, hj, htime⟩
        · rintro (hhere | ⟨kid, hkid, j, d', hbelow, hj, htime⟩)
          · exact ⟨i, _, .refl, hdir', hhere.imp (fun h => h.symm) id⟩
          · exact ⟨j, d', (atOrBelow_iff hdir').mpr (.inr ⟨kid, hkid, hbelow⟩), hj, htime⟩
      · constructor
        · rintro ⟨j, d', hbelow, hj, hunhashed⟩
          obtain rfl | ⟨kid, hkid, hbelow⟩ := (atOrBelow_iff hdir').mp hbelow
          · rw [hdir'] at hj
            cases hj
            exact .inl (.inr hunhashed)
          · exact .inr ⟨kid, hkid, j, d', hbelow, hj, hunhashed⟩
        · rintro ((hfalse | hhere) | ⟨kid, hkid, j, d', hbelow, hj, hunhashed⟩)
          · exact hfalse.elim
          · exact ⟨i, _, .refl, hdir', hhere⟩
          · exact ⟨j, d', (atOrBelow_iff hdir').mpr (.inr ⟨kid, hkid, hbelow⟩), hj, hunhashed⟩

end Storage

end RetroShare.FileSharing
