import RetroShare.FileSharing.Proof.Removal
import RetroShare.FileSharing.Proof.Totals

/-!
# The consistency check

`check` stamps the children of all directories, shortens a list where a child is listed for the
second time, and deletes the nodes that were not stamped.
-/

namespace RetroShare.FileSharing.Storage

/-! ### Stamps -/

def Hit (hits : List Nat) (i : Nat) : Prop := hits.getD i 0 ≠ 0

theorem hit_set {hits : List Nat} {kid : Nat} (hlt : kid < hits.length) (i : Nat) :
    Hit (hits.set kid 1) i ↔ i = kid ∨ Hit hits i := by
  unfold Hit
  by_cases hi : i = kid
  · subst hi
    simp [hlt]
  · simp [List.getElem?_set_ne (Ne.symm hi), hi]

/-- What became of a list of children and of the stamps. -/
structure Stamped (kids kids' hits hits' : List Nat) : Prop where
  subset : kids' ⊆ kids
  length_eq : hits'.length = hits.length
  kept : ∀ i, Hit hits i → Hit hits' i
  kids_hit : ∀ kid ∈ kids, kid < hits.length → Hit hits' kid
  listed : ∀ i, Hit hits' i → Hit hits i ∨ i ∈ kids'
  same : kids.Nodup → (∀ kid ∈ kids, kid < hits.length ∧ ¬ Hit hits kid) → kids' = kids

theorem Stamped.skip {kid : Nat} {after rest kids' hits hits' : List Nat}
    (hperm : rest.Perm after) (hstamped : Stamped rest kids' hits hits')
    (hkid : kid < hits.length → Hit hits kid) : Stamped (kid :: after) kids' hits hits' where
  subset i hmem := List.mem_cons_of_mem kid (hperm.subset (hstamped.subset hmem))
  length_eq := hstamped.length_eq
  kept := hstamped.kept
  kids_hit i hmem hlt := by
    obtain rfl | hafter := List.mem_cons.mp hmem
    · exact hstamped.kept _ (hkid hlt)
    · exact hstamped.kids_hit i (hperm.symm.subset hafter) hlt
  listed := hstamped.listed
  same _ hfresh := by
    obtain ⟨hlt, hmiss⟩ := hfresh kid List.mem_cons_self
    exact absurd (hkid hlt) hmiss

theorem Stamped.stamp {kid : Nat} {after kids' hits hits' : List Nat} (hlt : kid < hits.length)
    (hstamped : Stamped after kids' (hits.set kid 1) hits') :
    Stamped (kid :: after) (kid :: kids') hits hits' where
  subset := List.cons_subset_cons kid hstamped.subset
  length_eq := hstamped.length_eq.trans List.length_set
  kept i hhit := hstamped.kept i ((hit_set hlt i).mpr (.inr hhit))
  kids_hit i hmem hi := by
    obtain rfl | hafter := List.mem_cons.mp hmem
    · exact hstamped.kept _ ((hit_set hlt _).mpr (.inl rfl))
    · exact hstamped.kids_hit i hafter (hi.trans_eq List.length_set.symm)
  listed i hhit := by
    obtain hset | hmem := hstamped.listed i hhit
    · obtain rfl | hbefore := (hit_set hlt i).mp hset
      · exact .inr List.mem_cons_self
      · exact .inl hbefore
    · exact .inr (List.mem_cons_of_mem kid hmem)
  same hnodup hfresh := by
    obtain ⟨hnot, hnodup⟩ := List.nodup_cons.mp hnodup
    rw [hstamped.same hnodup]
    intro i hmem
    obtain ⟨hi, hmiss⟩ := hfresh i (List.mem_cons_of_mem kid hmem)
    refine ⟨hi.trans_eq List.length_set.symm, fun hhit => ?_⟩
    obtain rfl | hhit := (hit_set hlt i).mp hhit
    · exact hnot hmem
    · exact hmiss hhit

theorem Stamped.nil (hits : List Nat) : Stamped [] [] hits hits where
  subset := List.Subset.refl []
  length_eq := rfl
  kept _ hhit := hhit
  kids_hit _ hmem := absurd hmem List.not_mem_nil
  listed _ hhit := .inl hhit
  same _ _ := rfl

theorem stampKids_stamped {nodes : Nat} (out double : String) :
    ∀ (passes : Nat) (before kids hits : List Nat) (errors : List String),
      kids.length ≤ passes → hits.length = nodes →
      ∃ kids' hits' errors',
        stampKids nodes out double passes before.length (before ++ kids) hits errors =
          (before ++ kids', hits', errors') ∧ Stamped kids kids' hits hits'
  | passes, before, [], hits, errors, _, _ => by
      refine ⟨[], hits, errors, ?_, .nil hits⟩
      cases passes <;> simp [stampKids]
  | passes + 1, before, kid :: after, hits, errors, hpasses, hnodes => by
      have hget : (before ++ kid :: after)[before.length]? = some kid := by simp
      obtain ⟨rest, hswap, hperm⟩ := swapRemove_append before kid after
      have hrest : rest.length ≤ passes := by
        rw [hperm.length_eq]
        exact Nat.le_of_succ_le_succ hpasses
      unfold stampKids
      simp only [hget, hswap]
      by_cases hout : kid ≥ nodes
      · obtain ⟨kids', hits', errors', heq, hstamped⟩ :=
          stampKids_stamped out double passes before rest hits (report out errors) hrest hnodes
        refine ⟨kids', hits', errors', by rw [if_pos hout, heq], hstamped.skip hperm ?_⟩
        intro hlt
        omega
      · by_cases hhit : hits.getD kid 0 ≠ 0
        · obtain ⟨kids', hits', errors', heq, hstamped⟩ :=
            stampKids_stamped out double passes before rest hits (report double errors) hrest hnodes
          refine ⟨kids', hits', errors', by rw [if_neg hout, if_pos hhit, heq], ?_⟩
          exact hstamped.skip hperm fun _ => hhit
        · have hlt : kid < hits.length := by omega
          obtain ⟨kids', hits', errors', heq, hstamped⟩ :=
            stampKids_stamped out double passes (before ++ [kid]) after (hits.set kid 1) errors
              (Nat.le_of_succ_le_succ hpasses) (List.length_set.trans hnodes)
          refine ⟨kid :: kids', hits', errors', ?_, hstamped.stamp hlt⟩
          rw [if_neg hout, if_neg hhit]
          simpa using heq

/-! ### The table -/

/-- A directory may have lost children; other nodes stay. -/
def Thins (old new : Option Node) : Prop :=
  new = old ∨ ∃ d d', old = some (.dir d) ∧ new = some (.dir d') ∧
    d'.subdirs ⊆ d.subdirs ∧ d'.subfiles ⊆ d.subfiles

/-- No node is listed twice, and the root is not listed. -/
structure Unshared (s : Storage) : Prop where
  nodup : ∀ i d, s.node i = some (.dir d) → (d.subdirs ++ d.subfiles).Nodup
  parent_eq : ∀ i j kid, s.Lists i kid → s.Lists j kid → i = j
  root : ∀ i, ¬ s.Lists i 0
  lt_length : ∀ i kid, s.Lists i kid → kid < s.mNodes.length

/-- The first `m` nodes were looked at. -/
structure Scanned (s : Storage) (m : Nat) (u : Storage) (hits : List Nat) : Prop where
  length_eq : u.mNodes.length = s.mNodes.length
  hits_length : hits.length = s.mNodes.length
  pending : ∀ i, m ≤ i → u.node i = s.node i
  thins : ∀ i, Thins (s.node i) (u.node i)
  counted : ∀ room, Counted room s → Counted room u
  hit_of_listed : ∀ kid < s.mNodes.length, kid = 0 ∨ (∃ i < m, s.Lists i kid) → Hit hits kid
  listed_of_hit : ∀ kid, Hit hits kid → kid = 0 ∨ ∃ i < m, u.Lists i kid
  same : s.Unshared → u.mNodes = s.mNodes

variable {s t u : Storage} {m : Nat} {hits : List Nat}

theorem Scanned.of_nodes (hscanned : Scanned s m u hits) (hnodes : t.mNodes = u.mNodes)
    (hfiles : t.mTotalFiles = u.mTotalFiles) (hsize : t.mTotalSize = u.mTotalSize) :
    Scanned s m t hits where
  length_eq := hnodes ▸ hscanned.length_eq
  hits_length := hscanned.hits_length
  pending i hle := (node_congr hnodes i).trans (hscanned.pending i hle)
  thins i := (node_congr hnodes i) ▸ hscanned.thins i
  counted room hcounted := (hscanned.counted room hcounted).of_eq hnodes hfiles hsize
  hit_of_listed := hscanned.hit_of_listed
  listed_of_hit kid hhit := by
    obtain hzero | ⟨i, hi, hlists⟩ := hscanned.listed_of_hit kid hhit
    · exact .inl hzero
    · exact .inr ⟨i, hi, hlists.congr (node_congr hnodes i)⟩
  same hunshared := hnodes.trans (hscanned.same hunshared)

theorem Scanned.pass (hscanned : Scanned s m u hits) (hdir : ∀ d, s.node m ≠ some (.dir d)) :
    Scanned s (m + 1) u hits where
  length_eq := hscanned.length_eq
  hits_length := hscanned.hits_length
  pending i hle := hscanned.pending i (Nat.le_of_succ_le hle)
  thins := hscanned.thins
  counted := hscanned.counted
  hit_of_listed kid hlt hlisted := by
    refine hscanned.hit_of_listed kid hlt (hlisted.imp_right ?_)
    rintro ⟨i, hi, hlists⟩
    obtain hbefore | rfl := Nat.lt_succ_iff_lt_or_eq.mp hi
    · exact ⟨i, hbefore, hlists⟩
    · obtain ⟨d, hnode, -⟩ := hlists
      exact absurd hnode (hdir d)
  listed_of_hit kid hhit := by
    obtain hzero | ⟨i, hi, hlists⟩ := hscanned.listed_of_hit kid hhit
    · exact .inl hzero
    · exact .inr ⟨i, Nat.lt_succ_of_lt hi, hlists⟩
  same := hscanned.same

theorem Scanned.stamp (hscanned : Scanned s m u hits) {d : DirEntry}
    {subdirs subfiles hits' hits'' : List Nat} (hnode : u.node m = some (.dir d))
    (hdirs : Stamped d.subdirs subdirs hits hits')
    (hfiles : Stamped d.subfiles subfiles hits' hits'') :
    Scanned s (m + 1)
      (u.setNode m (some (.dir { d with subdirs := subdirs, subfiles := subfiles }))) hits'' := by
  have hlt : m < u.mNodes.length := lt_length_of_node hnode
  have hnode' : s.node m = some (.dir d) := (hscanned.pending m le_rfl).symm.trans hnode
  have hlength : hits'.length = s.mNodes.length := hdirs.length_eq.trans hscanned.hits_length
  have hself := node_setNode_self (some (.dir { d with subdirs := subdirs, subfiles := subfiles })) hlt
  have hother : ∀ i, i ≠ m → (u.setNode m (some (.dir { d with
      subdirs := subdirs, subfiles := subfiles }))).node i = u.node i :=
    fun i hne => node_setNode_ne _ hne
  constructor
  case length_eq => rw [length_setNode, hscanned.length_eq]
  case hits_length => rw [hfiles.length_eq, hlength]
  case pending =>
    intro i hle
    rw [hother i (by omega), hscanned.pending i (by omega)]
  case thins =>
    intro i
    by_cases hi : i = m
    · subst hi
      exact .inr ⟨d, _, hnode', hself, hdirs.subset, hfiles.subset⟩
    · rw [hother i hi]
      exact hscanned.thins i
  case counted =>
    intro room hcounted
    exact (hscanned.counted room hcounted).setNode _ (getElem_eq_of_node hnode) rfl
  case hit_of_listed =>
    intro kid hkid hlisted
    have hkept : Hit hits kid → Hit hits'' kid := fun hhit => hfiles.kept kid (hdirs.kept kid hhit)
    obtain hzero | ⟨i, hi, hlists⟩ := hlisted
    · exact hkept (hscanned.hit_of_listed kid hkid (.inl hzero))
    · obtain hbefore | rfl := Nat.lt_succ_iff_lt_or_eq.mp hi
      · exact hkept (hscanned.hit_of_listed kid hkid (.inr ⟨i, hbefore, hlists⟩))
      · obtain ⟨d', hdir, hmem⟩ := hlists
        rw [hnode'] at hdir
        cases hdir
        obtain hmem | hmem := hmem
        · exact hfiles.kept kid (hdirs.kids_hit kid hmem (hkid.trans_eq hscanned.hits_length.symm))
        · exact hfiles.kids_hit kid hmem (hkid.trans_eq hlength.symm)
  case listed_of_hit =>
    intro kid hhit
    obtain hhit | hmem := hfiles.listed kid hhit
    · obtain hhit | hmem := hdirs.listed kid hhit
      · obtain hzero | ⟨i, hi, hlists⟩ := hscanned.listed_of_hit kid hhit
        · exact .inl hzero
        · exact .inr ⟨i, Nat.lt_succ_of_lt hi, hlists.congr (hother i hi.ne)⟩
      · exact .inr ⟨m, Nat.lt_succ_self m, _, hself, .inl hmem⟩
    · exact .inr ⟨m, Nat.lt_succ_self m, _, hself, .inr hmem⟩
  case same =>
    intro hunshared
    -- a child that has been stamped before has another parent, is the root or is listed twice
    have hfresh : ∀ kid, s.Lists m kid → ¬ Hit hits kid := by
      intro kid hlists hhit
      obtain rfl | ⟨i, hi, hother⟩ := hscanned.listed_of_hit kid hhit
      · exact hunshared.root m hlists
      · have heq := node_congr (hscanned.same hunshared) i
        exact hi.ne (hunshared.parent_eq i m kid (hother.congr heq.symm) hlists)
    obtain ⟨hdistinct, hdistinct', hdisjoint⟩ := List.nodup_append.mp (hunshared.nodup m d hnode')
    have hsubdirs : subdirs = d.subdirs := by
      refine hdirs.same hdistinct fun kid hmem => ?_
      have hlists : s.Lists m kid := ⟨d, hnode', .inl hmem⟩
      exact ⟨(hunshared.lt_length m kid hlists).trans_eq hscanned.hits_length.symm,
        hfresh kid hlists⟩
    have hsubfiles : subfiles = d.subfiles := by
      refine hfiles.same hdistinct' fun kid hmem => ?_
      have hlists : s.Lists m kid := ⟨d, hnode', .inr hmem⟩
      refine ⟨(hunshared.lt_length m kid hlists).trans_eq hlength.symm, fun hhit => ?_⟩
      obtain hhit | hdir := hdirs.listed kid hhit
      · exact hfresh kid hlists hhit
      · exact hdisjoint kid (hsubdirs ▸ hdir) kid hmem rfl
    rw [hsubdirs, hsubfiles, ← hscanned.same hunshared]
    exact setNode_node hnode

theorem checkNode_scanned {errors : List String} (hscanned : Scanned s m u hits)
    (hlt : m < s.mNodes.length) :
    ∃ u' hits' errors', checkNode (u, hits, errors) m = (u', hits', errors') ∧
      Scanned s (m + 1) u' hits' := by
  have hnodes : hits.length = u.mNodes.length := by
    rw [hscanned.hits_length, hscanned.length_eq]
  have hpending := hscanned.pending m le_rfl
  have hget : u.mNodes[m]? = some (u.node m) := by
    rw [node, List.getElem?_eq_getElem (hscanned.length_eq ▸ hlt), Option.join_some]
  unfold checkNode
  simp only [hget]
  cases hnode : u.node m with
  | none =>
      have hnode' : s.node m = none := hpending.symm.trans hnode
      have hpass := hscanned.pass (by simp [hnode'])
      exact ⟨_, _, _, rfl, hpass.of_nodes rfl rfl rfl⟩
  | some n =>
      have hnode' : s.node m = some n := hpending.symm.trans hnode
      cases n with
      | file fe => exact ⟨_, _, _, rfl, hscanned.pass (by simp [hnode'])⟩
      | dir d =>
          obtain ⟨subdirs, hits', errors', hdirs, hstamped⟩ :=
            stampKids_stamped " - Node child dir out of tab!" " - Double hit on a single node dir."
              d.subdirs.length [] d.subdirs hits errors le_rfl hnodes
          obtain ⟨subfiles, hits'', errors'', hfiles, hstamped'⟩ :=
            stampKids_stamped " - Node child file out of tab!"
              " - Double hit on a single node file." d.subfiles.length [] d.subfiles hits' errors'
              le_rfl (hstamped.length_eq.trans hnodes)
          simp only [List.length_nil, List.nil_append] at hdirs hfiles
          simp only [hdirs, hfiles]
          exact ⟨_, _, _, rfl, hscanned.stamp hnode hstamped hstamped'⟩

theorem foldl_checkNode_scanned (s : Storage) :
    ∀ m ≤ s.mNodes.length, ∃ u hits errors,
      (List.range m).foldl checkNode
          ({ s with mFreeNodes := [] }, (List.replicate s.mNodes.length 0).set 0 1, []) =
        (u, hits, errors) ∧ Scanned s m u hits
  | 0, _ => by
      refine ⟨_, _, _, rfl, ?_⟩
      constructor
      case length_eq => rfl
      case hits_length => simp
      case pending => exact fun _ _ => rfl
      case thins => exact fun _ => .inl rfl
      case counted => exact fun _ hcounted => hcounted.of_eq rfl rfl rfl
      case hit_of_listed =>
        rintro kid hlt (rfl | ⟨i, hi, -⟩)
        · exact (hit_set (by simpa using hlt) 0).mpr (.inl rfl)
        · omega
      case listed_of_hit =>
        intro kid hhit
        by_contra hnot
        have hkid : kid ≠ 0 := fun hzero => hnot (.inl hzero)
        simp only [Hit, List.getD_eq_getElem?_getD, List.getElem?_set_ne hkid.symm,
          List.getElem?_replicate] at hhit
        split at hhit <;> exact hhit rfl
      case same => exact fun _ => rfl
  | m + 1, hle => by
      obtain ⟨u, hits, errors, heq, hscanned⟩ := foldl_checkNode_scanned s m (Nat.le_of_succ_le hle)
      obtain ⟨u', hits', errors', hstep, hnext⟩ := checkNode_scanned hscanned hle
      refine ⟨u', hits', errors', ?_, hnext⟩
      rw [List.range_succ, List.foldl_append, heq]
      exact hstep

/-! ### Deletion -/

theorem dropOrphan_cases {acc acc' : Storage × List String} {i : Nat}
    (hdrop : dropOrphan hits acc i = some acc') :
    (acc' = acc ∧ (Hit hits i ∨ acc.1.node i = none)) ∨
    (¬ Hit hits i ∧ acc.1.deleteNode i = some acc'.1) := by
  unfold dropOrphan at hdrop
  split at hdrop
  · rename_i horphan
    obtain ⟨t, hdelete, rfl⟩ := Option.map_eq_some_iff.mp hdrop
    exact .inr ⟨not_not.mpr horphan.1, hdelete⟩
  · rename_i hkeep
    cases hdrop
    refine .inl ⟨rfl, ?_⟩
    by_cases hhit : Hit hits i
    · exact .inl hhit
    · right
      by_contra hsome
      exact hkeep ⟨not_not.mp hhit, Option.isSome_iff_ne_none.mpr hsome⟩

/-- The nodes that are left are the stamped ones. -/
structure Dropped (u : Storage) (hits rest : List Nat) (t : Storage) : Prop where
  node_eq : ∀ i, t.node i = u.node i ∨ ¬ Hit hits i ∧ t.node i = none
  done : ∀ i < u.mNodes.length, i ∈ rest ∨ Hit hits i ∨ t.node i = none
  counted : (∀ i fe, u.node i = some (.file fe) → Hit hits i) →
    ∀ room, Counted room u → Counted room t

theorem Dropped.drop {i : Nat} {rest : List Nat} (hdropped : Dropped u hits (i :: rest) s)
    (hmiss : ¬ Hit hits i) (hdelete : s.deleteNode i = some t) : Dropped u hits rest t := by
  have hnode : ∀ j, t.node j = if j = i then none else s.node j := by
    intro j
    obtain ⟨hnone, rfl⟩ | ⟨n, -, rfl⟩ := deleteNode_cases hdelete
    · split
      · rename_i hji
        rw [hji, hnone]
      · rfl
    · exact node_setNode_none j
  constructor
  case node_eq =>
    intro j
    rw [hnode]
    split
    · rename_i hji
      exact .inr ⟨hji ▸ hmiss, rfl⟩
    · exact hdropped.node_eq j
  case done =>
    intro j hj
    rw [hnode]
    by_cases hji : j = i
    · simp [hji]
    · rw [if_neg hji]
      exact (hdropped.done j hj).imp_left fun hmem => (List.mem_cons.mp hmem).resolve_left hji
  case counted =>
    intro hfiles room hcounted
    refine (hdropped.counted hfiles room hcounted).deleteNode hdelete fun fe hfile => ?_
    obtain heq | ⟨-, hnone⟩ := hdropped.node_eq i
    · exact hmiss (hfiles i fe (heq.symm.trans hfile))
    · simp [hnone] at hfile

theorem check_cases {errors : String} (hcheck : s.check = some (t, errors)) :
    ∃ u hits, Scanned s s.mNodes.length u hits ∧
      (∀ i, Hit hits i → t.node i = u.node i) ∧ (∀ i, ¬ Hit hits i → t.node i = none) ∧
      ((∀ i fe, s.node i = some (.file fe) → Hit hits i) →
        ∀ room, Counted room s → Counted room t) := by
  unfold check at hcheck
  split at hcheck
  · cases hcheck
  · obtain ⟨u, hits, errors, hscan, hscanned⟩ := foldl_checkNode_scanned s s.mNodes.length le_rfl
    simp only [hscan] at hcheck
    obtain ⟨acc, hloop, hcheck⟩ := Option.bind_eq_some_iff.mp hcheck
    cases hcheck
    have hend := Transition.foldlM_keeps (fun rest acc => Dropped u hits rest acc.1)
      (fun i rest before after hdropped hpass => by
        obtain ⟨rfl, hleft⟩ | ⟨hmiss, hdelete⟩ := dropOrphan_cases hpass
        · refine ⟨hdropped.node_eq, fun j hj => ?_, hdropped.counted⟩
          obtain hmem | hdone := hdropped.done j hj
          · obtain rfl | hrest := List.mem_cons.mp hmem
            · exact .inr hleft
            · exact .inl hrest
          · exact .inr hdone
        · exact hdropped.drop hmiss hdelete)
      (List.range s.mNodes.length) (u, errors) acc
      ⟨fun _ => .inl rfl, fun i hi => .inl (List.mem_range.mpr (hi.trans_eq hscanned.length_eq)),
        fun _ _ hcounted => hcounted⟩ hloop
    refine ⟨u, hits, hscanned, ?_, ?_, ?_⟩
    · intro i hhit
      exact (hend.node_eq i).resolve_right fun hmiss => hmiss.1 hhit
    · intro i hmiss
      by_cases hi : i < u.mNodes.length
      · exact ((hend.done i hi).resolve_left List.not_mem_nil).resolve_left hmiss
      · obtain heq | ⟨-, hnone⟩ := hend.node_eq i
        · exact heq.trans (node_of_length_le (Nat.le_of_not_lt hi))
        · exact hnone
    · intro hfiles room hcounted
      refine hend.counted (fun i fe hfile => ?_) room (hscanned.counted room hcounted)
      obtain heq | ⟨d, d', -, hdir, -⟩ := hscanned.thins i
      · exact hfiles i fe (heq.symm.trans hfile)
      · rw [hdir] at hfile
        cases hfile

theorem Scanned.hit {hits : List Nat} (hscanned : Scanned s s.mNodes.length u hits) {kid : Nat}
    (hnode : s.node kid ≠ none) (hlisted : kid ≠ 0 → ∃ dir, s.Lists dir kid) : Hit hits kid := by
  obtain ⟨n, hsome⟩ := Option.ne_none_iff_exists'.mp hnode
  refine hscanned.hit_of_listed kid (lt_length_of_node hsome) ?_
  by_cases hzero : kid = 0
  · exact .inl hzero
  · obtain ⟨dir, d, hdir, hmem⟩ := hlisted hzero
    exact .inr ⟨dir, lt_length_of_node hdir, d, hdir, hmem⟩

theorem Thins.lists {i kid : Nat} (hthins : Thins (s.node i) (u.node i)) (hlists : u.Lists i kid) :
    s.Lists i kid := by
  obtain heq | ⟨d, d', hold, hnew, hdirs, hfiles⟩ := hthins
  · exact hlists.congr heq.symm
  · obtain ⟨d'', hnode, hmem⟩ := hlists
    rw [hnew] at hnode
    cases hnode
    exact ⟨d, hold, hmem.imp (@hdirs kid) (@hfiles kid)⟩

theorem length_check {errors : String} (hcheck : s.check = some (t, errors)) :
    t.mNodes.length = s.mNodes.length := by
  unfold check at hcheck
  split at hcheck
  · cases hcheck
  · obtain ⟨u, hits, errors, hscan, hscanned⟩ := foldl_checkNode_scanned s s.mNodes.length le_rfl
    simp only [hscan] at hcheck
    obtain ⟨acc, hloop, hcheck⟩ := Option.bind_eq_some_iff.mp hcheck
    cases hcheck
    refine Transition.foldlM_keeps
      (fun _ (acc : Storage × List String) => acc.1.mNodes.length = s.mNodes.length)
      (fun i _ before after hbefore hpass => ?_) _ _ _ hscanned.length_eq hloop
    obtain ⟨rfl, -⟩ | ⟨-, hdelete⟩ := dropOrphan_cases hpass
    · exact hbefore
    · exact (length_deleteNode hdelete).trans hbefore

end RetroShare.FileSharing.Storage
