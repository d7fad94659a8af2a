import RetroShare.FileSharing.HierarchyUpdates

/-!
# The node table

What the accessors of the hierarchy read after one write, and what the operations on single nodes
can have done when they return.
-/

namespace RetroShare.FileSharing.Storage

variable {s t : Storage} {i j : Nat}

theorem node_congr (hnodes : t.mNodes = s.mNodes) (i : Nat) : t.node i = s.node i := by
  rw [node, node, hnodes]

theorem getDir_eq_some {d : DirEntry} : s.getDir i = some d ↔ s.node i = some (.dir d) := by
  unfold getDir
  split <;> simp_all

theorem getFile_eq_some {f : FileEntry} : s.getFile i = some f ↔ s.node i = some (.file f) := by
  unfold getFile
  split <;> simp_all

theorem getElem_eq_of_node {n : Node} (hnode : s.node i = some n) : s.mNodes[i]? = some (some n) :=
  Option.join_eq_some_iff.mp hnode

theorem node_of_getElem {n : Option Node} (hget : s.mNodes[i]? = some n) : s.node i = n := by
  rw [node, hget, Option.join_some]

theorem lt_length_of_node {n : Node} (hnode : s.node i = some n) : i < s.mNodes.length :=
  (List.getElem?_eq_some_iff.mp (getElem_eq_of_node hnode)).1

theorem node_of_length_le (hle : s.mNodes.length ≤ i) : s.node i = none := by
  rw [node, List.getElem?_eq_none hle, Option.join_none]

@[simp]
theorem length_setNode (n : Option Node) : (s.setNode i n).mNodes.length = s.mNodes.length :=
  List.length_set

@[simp]
theorem mTotalFiles_setNode (n : Option Node) : (s.setNode i n).mTotalFiles = s.mTotalFiles := rfl

@[simp]
theorem mTotalSize_setNode (n : Option Node) : (s.setNode i n).mTotalSize = s.mTotalSize := rfl

theorem node_setNode_self (n : Option Node) (hlt : i < s.mNodes.length) :
    (s.setNode i n).node i = n := by
  simp [node, setNode, hlt]

theorem node_setNode_ne (n : Option Node) (hne : j ≠ i) : (s.setNode i n).node j = s.node j := by
  simp [node, setNode, List.getElem?_set_ne hne.symm]

theorem node_setNode_none (j : Nat) :
    (s.setNode i none).node j = if j = i then none else s.node j := by
  by_cases hji : j = i
  · subst hji
    by_cases hlt : j < s.mNodes.length
    · simp [node_setNode_self, hlt]
    · simp [node_of_length_le (s := s.setNode j none), Nat.le_of_not_lt hlt]
  · simp [node_setNode_ne, hji]

theorem node_pushNode_self (n : Option Node) : (s.pushNode n).node s.mNodes.length = n := by
  simp [node, pushNode]

theorem node_pushNode_ne (n : Option Node) (hne : j ≠ s.mNodes.length) :
    (s.pushNode n).node j = s.node j := by
  by_cases hlt : j < s.mNodes.length
  · rw [node, node, pushNode, List.getElem?_append_left hlt]
  · rw [node_of_length_le (Nat.le_of_not_lt hlt), node_of_length_le]
    simp only [pushNode, List.length_append, List.length_singleton]
    omega

theorem length_pushNode (n : Option Node) :
    (s.pushNode n).mNodes.length = s.mNodes.length + 1 := by
  simp [pushNode]

theorem setNode_node {n : Node} (hnode : s.node i = some n) :
    (s.setNode i (some n)).mNodes = s.mNodes := by
  obtain ⟨hlt, hget⟩ := List.getElem?_eq_some_iff.mp (getElem_eq_of_node hnode)
  rw [setNode, ← hget]
  exact List.set_getElem_self hlt

theorem modifyDir_eq_some {f : DirEntry → DirEntry} (hmodify : s.modifyDir i f = some t) :
    ∃ d, s.node i = some (.dir d) ∧ t = s.setNode i (some (.dir (f d))) := by
  obtain ⟨d, hget, rfl⟩ := Option.map_eq_some_iff.mp hmodify
  exact ⟨d, getDir_eq_some.mp hget, rfl⟩

theorem modifyFile_eq_some {f : FileEntry → FileEntry} (hmodify : s.modifyFile i f = some t) :
    ∃ fe, s.node i = some (.file fe) ∧ t = s.setNode i (some (.file (f fe))) := by
  obtain ⟨fe, hget, rfl⟩ := Option.map_eq_some_iff.mp hmodify
  exact ⟨fe, getFile_eq_some.mp hget, rfl⟩

theorem checkIndex_dir (hcheck : s.checkIndex i .dir = true) :
    i ≠ noIndex ∧ ∃ d, s.node i = some (.dir d) := by
  simp only [checkIndex, bne_iff_ne, Bool.and_eq_true, ne_eq, Option.any_eq_true,
    decide_eq_true_eq] at hcheck
  obtain ⟨hne, n, hnode, htype⟩ := hcheck
  cases n with
  | file _ => cases htype
  | dir d => exact ⟨hne, d, hnode⟩

theorem checkIndex_file (hcheck : s.checkIndex i .file = true) :
    i ≠ noIndex ∧ ∃ f, s.node i = some (.file f) := by
  simp only [checkIndex, bne_iff_ne, Bool.and_eq_true, ne_eq, Option.any_eq_true,
    decide_eq_true_eq] at hcheck
  obtain ⟨hne, n, hnode, htype⟩ := hcheck
  cases n with
  | file f => exact ⟨hne, f, hnode⟩
  | dir _ => cases htype

theorem deleteNode_cases (hdelete : s.deleteNode i = some t) :
    (s.node i = none ∧ t = s) ∨
    ∃ n, s.node i = some n ∧
      t = { s.setNode i none with mFreeNodes := s.mFreeNodes ++ [i] } := by
  unfold deleteNode at hdelete
  split at hdelete
  · cases hdelete
  · rename_i hget
    cases hdelete
    exact .inl ⟨node_of_getElem hget, rfl⟩
  · rename_i n hget
    cases hdelete
    exact .inr ⟨n, node_of_getElem hget, rfl⟩

/-- The totals without a file. -/
def uncount (s : Storage) (fe : FileEntry) : Storage where
  mFreeNodes := s.mFreeNodes
  mNodes := s.mNodes
  mFileHashes := s.mFileHashes
  mDirHashes := s.mDirHashes
  mTotalFiles := s.mTotalFiles - 1
  mTotalSize :=
    if s.mTotalSize ≥ fe.fileSize then Word.sub 64 s.mTotalSize fe.fileSize else s.mTotalSize

theorem deleteFileNode_cases (hdelete : s.deleteFileNode i = some t) :
    (s.node i = none ∧ t = s) ∨
    ∃ fe, s.node i = some (.file fe) ∧
      t = { (s.uncount fe).setNode i none with mFreeNodes := s.mFreeNodes ++ [i] } := by
  unfold deleteFileNode at hdelete
  split at hdelete
  · cases hdelete
  · rename_i hget
    cases hdelete
    exact .inl ⟨node_of_getElem hget, rfl⟩
  · cases hdelete
  · rename_i fe hget
    cases hdelete
    refine .inr ⟨fe, node_of_getElem hget, ?_⟩
    -- a total of no files is left alone, which taking one off does too
    by_cases hfiles : s.mTotalFiles > 0
    · by_cases hsize : s.mTotalSize ≥ fe.fileSize <;>
        simp [uncount, setNode, subSize, hsize, hfiles]
    · have hzero : s.mTotalFiles = 0 := by omega
      by_cases hsize : s.mTotalSize ≥ fe.fileSize <;>
        simp [uncount, setNode, subSize, hsize, hzero]

/-- A new index is one that was freed, or it is behind the end. -/
theorem allocateNewIndex_cases (halloc : s.allocateNewIndex = some (i, t)) :
    (∃ free, s.mNodes[i]? = some none ∧ t = { s with mFreeNodes := free }) ∨
    (i = s.mNodes.length ∧ t = { s with mFreeNodes := [] }.pushNode none) := by
  unfold allocateNewIndex at halloc
  generalize s.mFreeNodes = free at halloc
  induction free with
  | nil =>
      cases halloc
      exact .inr ⟨rfl, rfl⟩
  | cons index rest ih =>
      unfold allocateFrom at halloc
      split at halloc
      · cases halloc
      · rename_i hget
        cases halloc
        exact .inl ⟨rest, hget, rfl⟩
      · exact ih halloc

theorem updateFile_cases {hash : FileHash} {fname : Name} {size : Nat} {modfTime : Int}
    {result : Bool} (hupdate : s.updateFile i hash fname size modfTime = some (result, t)) :
    t = s ∨
    ∃ fe, s.node i = some (.file fe) ∧
      t.mNodes = s.mNodes.set i (some (.file { fe with
        fileHash := hash, fileSize := size, fileModtime := modfTime, fileName := fname })) ∧
      t.mFreeNodes = s.mFreeNodes ∧ t.mTotalFiles = s.mTotalFiles ∧
      t.mTotalSize = Word.add 64
        (if s.mTotalSize ≥ fe.fileSize then Word.sub 64 s.mTotalSize fe.fileSize
          else s.mTotalSize) size ∧
      t.mDirHashes = s.mDirHashes ∧
      t.mFileHashes =
        if hash = nullHash then s.mFileHashes else s.mFileHashes.insert hash i := by
  unfold updateFile at hupdate
  split at hupdate
  · cases hupdate
    exact .inl rfl
  · obtain ⟨fe, hget, hupdate⟩ := Option.bind_eq_some_iff.mp hupdate
    have hnode := getFile_eq_some.mp hget
    obtain ⟨u, hmodify, hupdate⟩ := Option.bind_eq_some_iff.mp hupdate
    obtain ⟨fe', hnode', rfl⟩ := modifyFile_eq_some hmodify
    have hsame : fe' = fe := by
      by_cases hsize : s.mTotalSize ≥ fe.fileSize
      all_goals
        simp only [hsize, ↓reduceIte] at hnode'
        exact Node.file.inj (Option.some.inj (hnode'.symm.trans hnode))
    subst hsame
    refine .inr ⟨fe', hnode, ?_⟩
    cases hupdate
    by_cases hsize : s.mTotalSize ≥ fe'.fileSize <;> by_cases hhash : hash = nullHash <;>
      simp [hsize, hhash, setNode, addSize, subSize]

theorem refreshSubfile_cases {kid : Nat} {ts : FileTS}
    (hrefresh : s.refreshSubfile kid ts = some t) :
    ∃ fe, s.node kid = some (.file fe) ∧ (t = s ∨
      t = ((s.setNode kid (some (.file { fe with
        fileHash := nullHash, fileModtime := ts.modtime, fileSize := ts.size }))).subSize
          ts.size).addSize ts.size) := by
  obtain ⟨fe, hget, hrefresh⟩ := Option.bind_eq_some_iff.mp hrefresh
  have hnode := getFile_eq_some.mp hget
  refine ⟨fe, hnode, ?_⟩
  split at hrefresh
  · obtain ⟨u, hmodify, hrefresh⟩ := Option.bind_eq_some_iff.mp hrefresh
    obtain ⟨fe', hnode', rfl⟩ := modifyFile_eq_some hmodify
    rw [hnode] at hnode'
    cases hnode'
    obtain ⟨fe', hget', hrefresh⟩ := Option.bind_eq_some_iff.mp hrefresh
    have hnode' := getFile_eq_some.mp hget'
    rw [node_setNode_self _ (lt_length_of_node hnode)] at hnode'
    cases hnode'
    cases hrefresh
    exact .inr rfl
  · cases hrefresh
    exact .inl rfl

/-! ### Lists of children -/

/-- The last element takes the place of the one that is removed. -/
theorem swapRemove_append (before : List Nat) (kid : Nat) (after : List Nat) :
    ∃ rest, swapRemove (before ++ kid :: after) before.length = before ++ rest ∧
      rest.Perm after := by
  obtain rfl | ⟨init, last, rfl⟩ := List.eq_nil_or_concat' after
  · exact ⟨[], by simp [swapRemove], .refl _⟩
  · refine ⟨last :: init, ?_, List.perm_append_singleton last init |>.symm⟩
    have hlast : (before ++ kid :: (init ++ [last])).getLastD 0 = last := by
      rw [← List.cons_append, ← List.append_assoc, List.getLastD_concat]
    have hset : (before ++ kid :: (init ++ [last])).set before.length last =
        (before ++ last :: init) ++ [last] := by
      simp [List.set_append_right]
    rw [swapRemove, hlast, hset, List.dropLast_concat]

open List in
theorem swapRemove_perm {kids : List Nat} {kid : Nat} (hget : kids[i]? = some kid) :
    kid :: swapRemove kids i ~ kids := by
  obtain ⟨hlt, rfl⟩ := List.getElem?_eq_some_iff.mp hget
  have hsplit : kids = kids.take i ++ kids[i] :: kids.drop (i + 1) := by simp
  obtain ⟨rest, hswap, hperm⟩ := swapRemove_append (kids.take i) kids[i] (kids.drop (i + 1))
  rw [← hsplit, List.length_take_of_le hlt.le] at hswap
  calc
    kids[i] :: swapRemove kids i ~ kids[i] :: (kids.take i ++ rest) := .of_eq (by rw [hswap])
    _ ~ kids[i] :: (kids.take i ++ kids.drop (i + 1)) := (hperm.append_left _).cons _
    _ ~ kids.take i ++ kids[i] :: kids.drop (i + 1) := perm_middle.symm
    _ ~ kids := .of_eq hsplit.symm

end RetroShare.FileSharing.Storage
