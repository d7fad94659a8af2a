import RetroShare.FileSharing.Proof.Totals

/-!
# Loading

Which sections of a saved file the loop of `load` gets to, and the table that they make.
-/

namespace RetroShare.FileSharing

/-- The index of a section, and the node that it makes. -/
def LoadSection.nodeIndex : LoadSection → Option Nat
  | fileEntry k _ | dirEntry k _ | cutDirEntry k => some k
  | broken => none

def LoadSection.placed : LoadSection → Option (Nat × Node)
  | fileEntry k fe => some (k, .file fe)
  | dirEntry k de => some (k, .dir de)
  | _ => none

/-- The sections that the loop of `load` gets to, for a table of that length. -/
def readSections : Nat → Nat → List LoadSection → List LoadSection
  | _, _, [] => []
  | i, length, found :: rest =>
      if length ≤ i then []
      else
        match found.placed with
        | some (k, _) => found :: readSections (i + 1) (max length (k + 1)) rest
        | none => [found]

/-- The node at an index, of several sections that of the last. -/
def savedNode : List LoadSection → Nat → Option Node
  | [], _ => none
  | found :: rest, i =>
      (savedNode rest i).or ((found.placed.filter (·.1 = i)).map Prod.snd)

def loadSizes (sections : List LoadSection) : List Nat :=
  sections.filterMap fun found => found.placed.bind fun placed => Node.fileSize? (some placed.2)

/-- No section puts a node in the place of an earlier section's file. -/
def NoFileReplaced (read : List LoadSection) : Prop :=
  read.Pairwise fun found later => ∀ k fe n,
    found.placed = some (k, .file fe) → later.placed ≠ some (k, n)

namespace Storage

variable {s t : Storage} {room : List Nat}

theorem mNodes_growTo {k : Nat} (hk : k < noIndex) :
    (s.growTo k).mNodes = s.mNodes ++ List.replicate (k + 1 - s.mNodes.length) none := by
  have hsize : Word.add 32 k 1 = k + 1 := Word.add_of_lt (by unfold noIndex at hk; omega)
  unfold growTo
  split
  · rename_i hle
    simp only [hsize]
    rw [List.take_of_length_le (by omega)]
  · rename_i hlt
    rw [Nat.sub_eq_zero_of_le (by omega), List.replicate_zero, List.append_nil]

theorem node_growTo {k : Nat} (hk : k < noIndex) (i : Nat) : (s.growTo k).node i = s.node i := by
  rw [node, node, mNodes_growTo hk]
  by_cases hi : i < s.mNodes.length
  · rw [List.getElem?_append_left hi]
  · rw [List.getElem?_append_right (by omega), List.getElem?_eq_none (Nat.le_of_not_lt hi),
      List.getElem?_replicate]
    split <;> rfl

theorem length_growTo {k : Nat} (hk : k < noIndex) :
    (s.growTo k).mNodes.length = max s.mNodes.length (k + 1) := by
  rw [mNodes_growTo hk, List.length_append, List.length_replicate]
  omega

theorem Counted.growTo {k : Nat} (hcounted : Counted room s) (hk : k < noIndex) :
    Counted room (s.growTo k) := by
  have htotals : (s.growTo k).mTotalFiles = s.mTotalFiles ∧
      (s.growTo k).mTotalSize = s.mTotalSize := by
    unfold Storage.growTo
    split <;> exact ⟨rfl, rfl⟩
  refine hcounted.of_perm ?_ htotals.1 htotals.2
  rw [fileSizes, fileSizes, mNodes_growTo hk, List.filterMap_append, List.filterMap_replicate_of_none rfl,
    List.append_nil]

theorem loadNode_of_lt {k : Nat} (n : Node) (hk : k < noIndex) :
    s.loadNode k n = some ((s.growTo k).setNode k (some n)) := by
  have hroom : k < (s.growTo k).mNodes.length := by
    rw [length_growTo hk]
    omega
  exact if_pos hroom

theorem length_growTo_setNode {k : Nat} (n : Node) (hk : k < noIndex) :
    ((s.growTo k).setNode k (some n)).mNodes.length = max s.mNodes.length (k + 1) := by
  rw [length_setNode, length_growTo hk]

theorem node_growTo_setNode {k : Nat} (n : Node) (hk : k < noIndex) (i : Nat) :
    ((s.growTo k).setNode k (some n)).node i = if k = i then some n else s.node i := by
  split
  · rename_i heq
    subst heq
    apply node_setNode_self
    rw [length_growTo hk]
    omega
  · rename_i hne
    rw [node_setNode_ne _ (Ne.symm hne), node_growTo hk]

/-! ### The loop -/

/-- What the sections that were read make of the table `s`. -/
structure Loads (read : List LoadSection) (room : List Nat) (s : Storage) (complete : Bool)
    (t : Storage) : Prop where
  node_eq : complete = true → ∀ i, t.node i = (savedNode read i).or (s.node i)
  complete : complete = true → ∀ found ∈ read, found.placed ≠ none
  counted : NoFileReplaced read →
    (∀ found ∈ read, ∀ k n fe, found.placed = some (k, n) → s.node k ≠ some (.file fe)) →
    Counted room s → Counted [] t

theorem Loads.nil (s : Storage) (complete : Bool) : Loads [] room s complete s where
  node_eq _ _ := rfl
  complete _ _ hmem := absurd hmem List.not_mem_nil
  counted _ _ hcounted := hcounted.mono List.nil_subperm

theorem Loads.cons {found : LoadSection} {rest : List LoadSection} {k : Nat} {n : Node}
    {more : List Nat} {complete : Bool} {u : Storage} (hrest : Loads rest room u complete t)
    (hplaced : found.placed = some (k, n))
    (hnode : ∀ i, u.node i = if k = i then some n else s.node i)
    (hcounted : (∀ fe, s.node k ≠ some (.file fe)) → Counted more s → Counted room u) : Loads (found :: rest) more s complete t where
  node_eq hcomplete i := by
    rw [hrest.node_eq hcomplete i, hnode, savedNode, hplaced, Option.filter_some]
    by_cases hki : k = i <;> simp [hki]
  complete hcomplete other hmem := by
    obtain rfl | hmem := List.mem_cons.mp hmem
    · simp [hplaced]
    · exact hrest.complete hcomplete other hmem
  counted hdistinct hfresh hbefore := by
    obtain ⟨hkeep, hdistinct⟩ := List.pairwise_cons.mp hdistinct
    refine hrest.counted hdistinct (fun other hmem k' n' fe hother => ?_)
      (hcounted (fun fe => hfresh found List.mem_cons_self k n fe hplaced) hbefore)
    rw [hnode]
    split
    · rename_i heq
      subst heq
      intro hfile
      cases hfile
      exact hkeep other hmem k fe n' hplaced hother
    · exact hfresh other (List.mem_cons_of_mem found hmem) k' n' fe hother

/-- A section that is not a node ends the loop. -/
theorem Loads.stop {found : LoadSection} (hcounted : Counted room s → Counted room t) :
    Loads [found] room s false t where
  node_eq hcomplete := by cases hcomplete
  complete hcomplete := by cases hcomplete
  counted _ _ hbefore := (hcounted hbefore).mono List.nil_subperm

/-- The place for a node holds none, or a directory, when no file is to be replaced. -/
theorem getElem_growTo {k : Nat} (hk : k < noIndex) (hfresh : ∀ fe, s.node k ≠ some (.file fe)) :
    ∃ old, (s.growTo k).mNodes[k]? = some old ∧ Node.fileSize? old = none := by
  have hlt : k < (s.growTo k).mNodes.length := by
    rw [length_growTo hk]
    omega
  have hget := List.getElem?_eq_getElem hlt
  refine ⟨_, hget, ?_⟩
  have hnode := (node_growTo hk k).symm.trans (node_of_getElem hget)
  cases hold : (s.growTo k).mNodes[k] with
  | none => rfl
  | some n =>
      rw [hold] at hnode
      cases n with
      | file fe => exact absurd hnode (hfresh fe)
      | dir de => rfl

theorem loadSections_loads {i : Nat} {sections : List LoadSection} {complete : Bool}
    (hbound : ∀ found ∈ readSections i s.mNodes.length sections, ∀ k,
      found.nodeIndex = some k → k < noIndex)
    (hload : loadSections i sections s = some (complete, t)) :
    Loads (readSections i s.mNodes.length sections) (loadSizes sections) s complete t := by
  induction sections generalizing i s with
  | nil =>
      cases hload
      exact .nil _ true
  | cons found rest ih =>
      unfold loadSections at hload
      unfold readSections at hbound ⊢
      split at hload
      · rename_i hend
        cases hload
        rw [if_pos hend]
        exact .nil _ true
      · rename_i hmore
        rw [if_neg hmore] at hbound ⊢
        -- the rest of the sections finds the table that the first one leaves
        have hrest : ∀ (k : Nat) (u : Storage), loadSections (i + 1) rest u = some (complete, t) →
            u.mNodes.length = max s.mNodes.length (k + 1) →
            (∀ found ∈ readSections (i + 1) (max s.mNodes.length (k + 1)) rest, ∀ k,
              found.nodeIndex = some k → k < noIndex) →
            Loads (readSections (i + 1) (max s.mNodes.length (k + 1)) rest) (loadSizes rest) u
              complete t := by
          intro k u hload hlength hbound
          rw [← hlength] at hbound ⊢
          exact ih hbound hload
        cases found with
        | broken =>
            cases hload
            exact .stop id
        | cutDirEntry k =>
            cases hload
            exact .stop fun hcounted => hcounted.growTo (hbound _ (List.mem_singleton_self _) k rfl)
        | fileEntry k fe =>
            have hk := hbound _ List.mem_cons_self k rfl
            obtain ⟨u, hnode, hload⟩ := Option.bind_eq_some_iff.mp hload
            cases (loadNode_of_lt (.file fe) hk).symm.trans hnode
            have htail := hrest k _ hload (length_growTo_setNode (.file fe) hk)
              fun found hmem => hbound found (List.mem_cons_of_mem _ hmem)
            refine htail.cons rfl (node_growTo_setNode (.file fe) hk) fun hfresh hcounted => ?_
            obtain ⟨old, hget, hold⟩ := getElem_growTo hk hfresh
            exact (hcounted.growTo hk).addFile fe hget hold rfl rfl rfl
        | dirEntry k de =>
            have hk := hbound _ List.mem_cons_self k rfl
            obtain ⟨u, hnode, hload⟩ := Option.bind_eq_some_iff.mp hload
            cases (loadNode_of_lt (.dir de) hk).symm.trans hnode
            have htail := hrest k _ hload (length_growTo_setNode (.dir de) hk)
              fun found hmem => hbound found (List.mem_cons_of_mem _ hmem)
            refine htail.cons rfl (node_growTo_setNode (.dir de) hk) fun hfresh hcounted => ?_
            obtain ⟨old, hget, hold⟩ := getElem_growTo hk hfresh
            have hset := (hcounted.growTo hk).setNode (some (.dir de)) hget hold.symm
            exact hset.of_eq rfl rfl rfl

end Storage

end RetroShare.FileSharing
