import RetroShare.FileSharing.Proof.Table

/-!
# Removal of directories

A removal changes no node that it leaves, and a node that it takes away goes with all its children.
-/

namespace RetroShare.FileSharing.Storage

/-- A directory of the table has `kid` in one of its lists. -/
def Lists (s : Storage) (i kid : Nat) : Prop :=
  ∃ d, s.node i = some (.dir d) ∧ (kid ∈ d.subdirs ∨ kid ∈ d.subfiles)

structure Removes (s t : Storage) : Prop where
  node_eq : ∀ i, t.node i = s.node i ∨ t.node i = none
  kids : ∀ i kid, s.Lists i kid → t.node i = none → t.node kid = none

variable {s t u : Storage} {i : Nat}

theorem Lists.node_ne {kid : Nat} (hlists : s.Lists i kid) : s.node i ≠ none := by
  obtain ⟨d, hnode, -⟩ := hlists
  simp [hnode]

theorem Lists.congr {kid : Nat} (hlists : s.Lists i kid) (hnode : t.node i = s.node i) :
    t.Lists i kid := by
  obtain ⟨d, hdir, hkid⟩ := hlists
  exact ⟨d, hnode.trans hdir, hkid⟩

theorem Removes.refl (s : Storage) : Removes s s where
  node_eq _ := .inl rfl
  kids _ _ hlists hnone := absurd hnone hlists.node_ne

theorem Removes.keeps_none (hremoves : Removes s t) (hnone : s.node i = none) : t.node i = none := by
  obtain heq | hgone := hremoves.node_eq i
  · exact heq.trans hnone
  · exact hgone

theorem Removes.trans (hfirst : Removes s t) (hsecond : Removes t u) : Removes s u where
  node_eq i := by
    obtain heq | hgone := hsecond.node_eq i
    · rw [heq]
      exact hfirst.node_eq i
    · exact .inr hgone
  kids i kid hlists hnone := by
    obtain heq | hgone := hfirst.node_eq i
    · exact hsecond.kids i kid (hlists.congr heq) hnone
    · exact hsecond.keeps_none (hfirst.kids i kid hlists hgone)

theorem Removes.of_nodes (hremoves : Removes s t) (hnodes : u.mNodes = t.mNodes) :
    Removes s u where
  node_eq i := by
    rw [node_congr hnodes]
    exact hremoves.node_eq i
  kids i kid hlists hnone := by
    rw [node_congr hnodes] at hnone ⊢
    exact hremoves.kids i kid hlists hnone

/-- Once its children are gone, a node can go. -/
theorem Removes.drop (hremoves : Removes s t)
    (hkids : ∀ kid, s.Lists i kid → t.node kid = none) : Removes s (t.setNode i none) where
  node_eq j := by
    rw [node_setNode_none]
    split
    · exact .inr rfl
    · exact hremoves.node_eq j
  kids j kid hlists hnone := by
    rw [node_setNode_none] at hnone ⊢
    split
    · rfl
    · by_cases hj : j = i
      · exact hkids kid (hj ▸ hlists)
      · rw [if_neg hj] at hnone
        exact hremoves.kids j kid hlists hnone

theorem removes_deleteFileNode (hdelete : s.deleteFileNode i = some t) :
    Removes s t ∧ t.node i = none := by
  obtain ⟨hnone, rfl⟩ | ⟨fe, hnode, rfl⟩ := deleteFileNode_cases hdelete
  · exact ⟨.refl _, hnone⟩
  · have hdrop : Removes s (s.setNode i none) := by
      apply (Removes.refl s).drop
      rintro kid ⟨d, hdir, -⟩
      rw [hnode] at hdir
      cases hdir
    refine ⟨hdrop.of_nodes rfl, ?_⟩
    exact (node_setNode_none (s := s) i).trans (if_pos rfl)

/-- The deletions of one list of children. -/
theorem removes_foldlM {delete : Storage → Nat → Option Storage}
    (hdelete : ∀ {s t i}, delete s i = some t → Removes s t ∧ t.node i = none)
    {kids : List Nat} (hloop : kids.foldlM delete s = some t) :
    Removes s t ∧ ∀ kid ∈ kids, t.node kid = none := by
  have hend := Transition.foldlM_keeps
    (fun rest u => Removes s u ∧ ∀ kid ∈ kids, kid ∈ rest ∨ u.node kid = none)
    (fun kid rest before after ⟨hremoves, hgone⟩ hpass => by
      obtain ⟨hstep, hnone⟩ := hdelete hpass
      refine ⟨hremoves.trans hstep, fun other hother => ?_⟩
      obtain hmem | hbefore := hgone other hother
      · obtain rfl | hrest := List.mem_cons.mp hmem
        · exact .inr hnone
        · exact .inl hrest
      · exact .inr (hstep.keeps_none hbefore))
    kids s t ⟨.refl s, fun _ hmem => .inl hmem⟩ hloop
  exact ⟨hend.1, fun kid hmem => (hend.2 kid hmem).resolve_left List.not_mem_nil⟩

theorem recursRemove_cases {depth dir : Nat} (hremove : recursRemove (depth + 1) s dir = some t) :
    ∃ d u v w, s.node dir = some (.dir d) ∧ d.subdirs.foldlM (recursRemove depth) s = some u ∧
      d.subfiles.foldlM Storage.deleteFileNode u = some v ∧ v.deleteNode dir = some w ∧
      t = { w with mDirHashes := w.mDirHashes.erase d.dirHash } := by
  obtain ⟨d, hget, hremove⟩ := Option.bind_eq_some_iff.mp hremove
  obtain ⟨u, hsubdirs, hremove⟩ := Option.bind_eq_some_iff.mp hremove
  obtain ⟨v, hsubfiles, hremove⟩ := Option.bind_eq_some_iff.mp hremove
  obtain ⟨w, hdelete, hremove⟩ := Option.bind_eq_some_iff.mp hremove
  cases hremove
  exact ⟨d, u, v, w, getDir_eq_some.mp hget, hsubdirs, hsubfiles, hdelete, rfl⟩

theorem removes_recursRemove {depth dir : Nat} (hremove : recursRemove depth s dir = some t) :
    Removes s t ∧ t.node dir = none := by
  induction depth generalizing s t dir with
  | zero => cases hremove
  | succ depth ih =>
      obtain ⟨d, u, v, w, hnode, hsubdirs, hsubfiles, hdelete, rfl⟩ := recursRemove_cases hremove
      obtain ⟨hu, hdirs⟩ := removes_foldlM ih hsubdirs
      obtain ⟨hv, hfiles⟩ := removes_foldlM removes_deleteFileNode hsubfiles
      have hkids : ∀ kid, s.Lists dir kid → v.node kid = none := by
        rintro kid ⟨d', hnode', hkid⟩
        rw [hnode] at hnode'
        cases hnode'
        exact hkid.elim (fun hmem => hv.keeps_none (hdirs kid hmem)) (hfiles kid)
      have hdrop := (hu.trans hv).drop hkids
      obtain ⟨hnone, rfl⟩ | ⟨n, -, rfl⟩ := deleteNode_cases hdelete
      · exact ⟨(hu.trans hv).of_nodes rfl, hnone⟩
      · refine ⟨hdrop.of_nodes rfl, ?_⟩
        exact (node_setNode_none (s := v) dir).trans (if_pos rfl)

theorem Removes.lists (hremoves : Removes s t) {kid : Nat} (hlists : t.Lists i kid) :
    s.Lists i kid := by
  obtain heq | hnone := hremoves.node_eq i
  · exact hlists.congr heq.symm
  · exact absurd hnone hlists.node_ne

/-- What is not below one of the children outlives the deletion of their list. -/
theorem foldlM_kept {delete : Storage → Nat → Option Storage} {j : Nat}
    (hremoves : ∀ {s t i}, delete s i = some t → Removes s t ∧ t.node i = none)
    (hkept : ∀ {s t i}, delete s i = some t → ¬ Relation.ReflTransGen s.Lists i j →
      t.node j = s.node j) {kids : List Nat} (hloop : kids.foldlM delete s = some t)
    (hj : ∀ kid ∈ kids, ¬ Relation.ReflTransGen s.Lists kid j) : t.node j = s.node j := by
  have hend := Transition.foldlM_keeps
    (fun rest u => Removes s u ∧ rest ⊆ kids ∧ u.node j = s.node j)
    (fun kid rest before after ⟨hbefore, hsubset, hsame⟩ hpass => by
      refine ⟨hbefore.trans (hremoves hpass).1,
        fun other hmem => hsubset (List.mem_cons_of_mem kid hmem), ?_⟩
      rw [← hsame]
      refine hkept hpass fun hbelow => hj kid (hsubset List.mem_cons_self) ?_
      exact Relation.ReflTransGen.mono (fun _ _ => hbefore.lists) _ _ hbelow)
    kids s t ⟨.refl s, List.Subset.refl kids, rfl⟩ hloop
  exact hend.2.2

theorem deleteFileNode_kept (hdelete : s.deleteFileNode i = some t) {j : Nat} (hne : j ≠ i) :
    t.node j = s.node j := by
  obtain ⟨-, rfl⟩ | ⟨fe, -, rfl⟩ := deleteFileNode_cases hdelete
  · rfl
  · exact (node_setNode_none (s := s) j).trans (if_neg hne)

/-- A removal leaves what is not below the directory. -/
theorem recursRemove_kept {depth dir : Nat} (hremove : recursRemove depth s dir = some t) (j : Nat)
    (hj : ¬ Relation.ReflTransGen s.Lists dir j) : t.node j = s.node j := by
  induction depth generalizing s t dir with
  | zero => cases hremove
  | succ depth ih =>
      obtain ⟨d, u, v, w, hnode, hsubdirs, hsubfiles, hdelete, rfl⟩ := recursRemove_cases hremove
      have hkid : ∀ kid, kid ∈ d.subdirs ∨ kid ∈ d.subfiles →
          ¬ Relation.ReflTransGen s.Lists kid j := by
        intro kid hmem hbelow
        exact hj (hbelow.head ⟨d, hnode, hmem⟩)
      have hdirs := (removes_foldlM removes_recursRemove hsubdirs).1
      have hu : u.node j = s.node j :=
        foldlM_kept removes_recursRemove (fun hremove => ih hremove) hsubdirs
          fun kid hmem => hkid kid (.inl hmem)
      have hv : v.node j = u.node j := by
        refine foldlM_kept removes_deleteFileNode ?_ hsubfiles fun kid hmem hbelow => ?_
        · intro s t i hdelete hbelow
          refine deleteFileNode_kept hdelete ?_
          rintro rfl
          exact hbelow .refl
        · exact hkid kid (.inr hmem) (Relation.ReflTransGen.mono (fun _ _ => hdirs.lists) _ _ hbelow)
      have hdir : j ≠ dir := by
        rintro rfl
        exact hj .refl
      obtain ⟨-, rfl⟩ | ⟨n, -, rfl⟩ := deleteNode_cases hdelete
      · exact hv.trans hu
      · exact ((node_setNode_none (s := v) j).trans (if_neg hdir)).trans (hv.trans hu)

theorem recursRemove_gone {depth dir : Nat} (hremove : recursRemove depth s dir = some t) {j : Nat}
    (hbelow : Relation.ReflTransGen s.Lists dir j) : t.node j = none := by
  obtain ⟨hremoves, hgone⟩ := removes_recursRemove hremove
  induction hbelow with
  | refl => exact hgone
  | tail _ hlists ih => exact hremoves.kids _ _ hlists ih

theorem length_deleteNode (hdelete : s.deleteNode i = some t) :
    t.mNodes.length = s.mNodes.length := by
  obtain ⟨-, rfl⟩ | ⟨n, -, rfl⟩ := deleteNode_cases hdelete
  · rfl
  · exact length_setNode none

theorem length_deleteFileNode (hdelete : s.deleteFileNode i = some t) :
    t.mNodes.length = s.mNodes.length := by
  obtain ⟨-, rfl⟩ | ⟨fe, -, rfl⟩ := deleteFileNode_cases hdelete
  · rfl
  · exact length_setNode none

theorem length_recursRemove {depth dir : Nat} (hremove : recursRemove depth s dir = some t) :
    t.mNodes.length = s.mNodes.length := by
  induction depth generalizing s t dir with
  | zero => cases hremove
  | succ depth ih =>
      obtain ⟨d, u, v, w, -, hsubdirs, hsubfiles, hdelete, rfl⟩ := recursRemove_cases hremove
      have hu : u.mNodes.length = s.mNodes.length :=
        Transition.foldlM_keeps (fun _ u => u.mNodes.length = s.mNodes.length)
          (fun _ _ _ _ hbefore hpass => (ih hpass).trans hbefore) _ _ _ rfl hsubdirs
      have hv : v.mNodes.length = s.mNodes.length :=
        Transition.foldlM_keeps (fun _ v => v.mNodes.length = s.mNodes.length)
          (fun _ _ _ _ hbefore hpass => (length_deleteFileNode hpass).trans hbefore) _ _ _ hu hsubfiles
      exact (length_deleteNode hdelete).trans hv

theorem removeDirectory_cases {indx : Nat} {result : Bool}
    (hremove : s.removeDirectory indx = some (result, t)) :
    (result = false ∧ t = s) ∨
    ∃ d p place u errors, result = true ∧ indx ≠ 0 ∧ s.node indx = some (.dir d) ∧
      s.node d.parentIndex = some (.dir p) ∧ p.subdirs[place]? = some indx ∧
      (s.setNode d.parentIndex (some (.dir { p with
        subdirs := swapRemove p.subdirs place }))).recursRemoveDirectory indx = some u ∧
      u.check = some (t, errors) := by
  unfold removeDirectory at hremove
  split at hremove
  · cases hremove
    exact .inl ⟨rfl, rfl⟩
  · split at hremove
    · cases hremove
      exact .inl ⟨rfl, rfl⟩
    · rename_i hroot
      obtain ⟨d, hget, hremove⟩ := Option.bind_eq_some_iff.mp hremove
      obtain ⟨p, hparent, hremove⟩ := Option.bind_eq_some_iff.mp hremove
      split at hremove
      · cases hremove
        exact .inl ⟨rfl, rfl⟩
      · rename_i place hfind
        obtain ⟨v, hmodify, hremove⟩ := Option.bind_eq_some_iff.mp hremove
        obtain ⟨u, hrecurs, hremove⟩ := Option.bind_eq_some_iff.mp hremove
        obtain ⟨⟨w, errors⟩, hcheck, hremove⟩ := Option.bind_eq_some_iff.mp hremove
        cases hremove
        obtain ⟨p', hparent', rfl⟩ := modifyDir_eq_some hmodify
        have hp := getDir_eq_some.mp hparent
        rw [hp] at hparent'
        cases hparent'
        obtain ⟨hlt, heq, -⟩ := List.findIdx?_eq_some_iff_getElem.mp hfind
        have hplace : p.subdirs[place]? = some indx := by
          rw [List.getElem?_eq_getElem hlt, of_decide_eq_true heq]
        exact .inr ⟨d, p, place, u, errors, rfl, hroot, getDir_eq_some.mp hget, hp, hplace, hrecurs,
          hcheck⟩

end RetroShare.FileSharing.Storage
