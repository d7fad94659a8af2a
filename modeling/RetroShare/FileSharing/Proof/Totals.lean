import RetroShare.FileSharing.Proof.Table

/-!
# The totals of the shared files

`mTotalFiles` and `mTotalSize` are adjusted file by file. While there is room in the two counters for
the files that a step still has to add, each adjustment follows the change of the table.
-/

namespace RetroShare.FileSharing

/-- The size of a node, if it is a file. -/
def Node.fileSize? : Option Node → Option Nat
  | some (.file fe) => some fe.fileSize
  | _ => none

namespace Storage

/-- The sizes of all file nodes. -/
def fileSizes (s : Storage) : List Nat := s.mNodes.filterMap Node.fileSize?

/-- The totals are those of the table, and the sizes in `room` can be added to them. -/
structure Counted (room : List Nat) (s : Storage) : Prop where
  files_eq : s.mTotalFiles = s.fileSizes.length
  size_eq : s.mTotalSize = s.fileSizes.sum
  files_lt : s.fileSizes.length + room.length < 2 ^ 32
  size_lt : s.fileSizes.sum + room.sum < 2 ^ 64

variable {s t : Storage} {i : Nat} {room : List Nat}

/-! ### One node -/

open List in
theorem filterMap_set_perm {α β : Type} (f : α → Option β) (new : α) :
    ∀ (l : List α) (i : Nat) (old : α), l[i]? = some old →
      (f old).toList ++ (l.set i new).filterMap f ~ (f new).toList ++ l.filterMap f
  | a :: l, 0, old, hget => by
      cases hget
      cases hfa : f a <;> cases hfn : f new <;> simp [hfa, hfn, Perm.swap]
  | a :: l, i + 1, old, hget => by
      have ih := filterMap_set_perm f new l i old hget
      cases hfa : f a with
      | none => simpa [List.filterMap_cons, hfa] using ih
      | some b =>
          simp only [List.set_cons_succ, List.filterMap_cons, hfa]
          calc
            (f old).toList ++ b :: (l.set i new).filterMap f
              ~ b :: ((f old).toList ++ (l.set i new).filterMap f) := perm_middle
            _ ~ b :: ((f new).toList ++ l.filterMap f) := ih.cons b
            _ ~ (f new).toList ++ b :: l.filterMap f := perm_middle.symm

theorem Counted.of_perm (hcounted : Counted room s) (hperm : t.fileSizes.Perm s.fileSizes)
    (hfiles : t.mTotalFiles = s.mTotalFiles) (hsize : t.mTotalSize = s.mTotalSize) :
    Counted room t := by
  constructor
  · rw [hfiles, hperm.length_eq, hcounted.files_eq]
  · rw [hsize, hperm.sum_eq, hcounted.size_eq]
  · rw [hperm.length_eq]
    exact hcounted.files_lt
  · rw [hperm.sum_eq]
    exact hcounted.size_lt

theorem Counted.of_eq (hcounted : Counted room s) (hnodes : t.mNodes = s.mNodes)
    (hfiles : t.mTotalFiles = s.mTotalFiles) (hsize : t.mTotalSize = s.mTotalSize) :
    Counted room t := by
  refine hcounted.of_perm ?_ hfiles hsize
  rw [fileSizes, fileSizes, hnodes]

theorem Counted.mono {less : List Nat} (hcounted : Counted room s) (hless : less.Subperm room) :
    Counted less s := by
  obtain ⟨kept, hperm, hsublist⟩ := hless
  have hlength := hsublist.length_le
  have hsum := hsublist.sum_le_sum fun _ _ => Nat.zero_le _
  rw [hperm.length_eq] at hlength
  rw [hperm.sum_eq] at hsum
  constructor
  · exact hcounted.files_eq
  · exact hcounted.size_eq
  · exact (Nat.add_le_add_left hlength _).trans_lt hcounted.files_lt
  · exact (Nat.add_le_add_left hsum _).trans_lt hcounted.size_lt

/-- One node is replaced, and the totals change by what this does to the sizes. -/
theorem Counted.replace {old new : Option Node}
    (hcounted : Counted ((Node.fileSize? new).toList ++ room) s)
    (hget : s.mNodes[i]? = some old) (hnodes : t.mNodes = s.mNodes.set i new)
    (hfiles : (Node.fileSize? old).toList.length + t.mTotalFiles =
      (Node.fileSize? new).toList.length + s.mTotalFiles)
    (hsize : (Node.fileSize? old).toList.sum + t.mTotalSize =
      (Node.fileSize? new).toList.sum + s.mTotalSize) :
    Counted ((Node.fileSize? old).toList ++ room) t := by
  have hperm := filterMap_set_perm Node.fileSize? new s.mNodes i old hget
  rw [← hnodes] at hperm
  change List.Perm (_ ++ t.fileSizes) (_ ++ s.fileSizes) at hperm
  have hlength := hperm.length_eq
  have hsum := hperm.sum_eq
  rw [List.length_append, List.length_append] at hlength
  rw [List.sum_append, List.sum_append] at hsum
  have hbefore := hcounted.files_lt
  have hbelow := hcounted.size_lt
  rw [List.length_append] at hbefore
  rw [List.sum_append] at hbelow
  constructor
  · have := hcounted.files_eq
    omega
  · have := hcounted.size_eq
    omega
  · rw [List.length_append]
    omega
  · rw [List.sum_append]
    omega

theorem Counted.setNode {old : Option Node} (hcounted : Counted room s) (new : Option Node)
    (hget : s.mNodes[i]? = some old) (hsame : Node.fileSize? new = Node.fileSize? old) :
    Counted room (s.setNode i new) := by
  have hperm := filterMap_set_perm Node.fileSize? new s.mNodes i old hget
  rw [hsame] at hperm
  exact hcounted.of_perm ((List.perm_append_left_iff _).mp hperm) rfl rfl

theorem Counted.pushNode (hcounted : Counted room s) (n : Option Node)
    (hdir : Node.fileSize? n = none) : Counted room (s.pushNode n) := by
  refine hcounted.of_perm ?_ rfl rfl
  simp [fileSizes, Storage.pushNode, hdir]

theorem Counted.modifyDir {f : DirEntry → DirEntry} (hcounted : Counted room s)
    (hmodify : s.modifyDir i f = some t) : Counted room t := by
  obtain ⟨d, hnode, rfl⟩ := modifyDir_eq_some hmodify
  exact hcounted.setNode _ (getElem_eq_of_node hnode) rfl

theorem Counted.modifyFile {f : FileEntry → FileEntry} (hcounted : Counted room s)
    (hmodify : s.modifyFile i f = some t)
    (hsame : ∀ fe, s.node i = some (.file fe) → (f fe).fileSize = fe.fileSize) :
    Counted room t := by
  obtain ⟨fe, hnode, rfl⟩ := modifyFile_eq_some hmodify
  refine hcounted.setNode _ (getElem_eq_of_node hnode) ?_
  rw [Node.fileSize?, Node.fileSize?, hsame fe hnode]

theorem Counted.size_of_file (hcounted : Counted room s) {fe : FileEntry}
    (hnode : s.node i = some (.file fe)) :
    fe.fileSize ≤ s.mTotalSize ∧ 0 < s.mTotalFiles ∧ s.mTotalSize < 2 ^ 64 := by
  have hmem : fe.fileSize ∈ s.fileSizes :=
    List.mem_filterMap.mpr ⟨_, List.mem_of_getElem? (getElem_eq_of_node hnode), rfl⟩
  rw [hcounted.size_eq, hcounted.files_eq]
  refine ⟨List.single_le_sum (fun _ _ => Nat.zero_le _) _ hmem, List.length_pos_of_mem hmem, ?_⟩
  have := hcounted.size_lt
  omega

theorem Counted.deleteFileNode (hcounted : Counted room s)
    (hdelete : s.deleteFileNode i = some t) : Counted room t := by
  obtain ⟨-, rfl⟩ | ⟨fe, hnode, rfl⟩ := deleteFileNode_cases hdelete
  · exact hcounted
  · obtain ⟨hsize, hfiles, hbelow⟩ := hcounted.size_of_file hnode
    have hroom : Counted ((Node.fileSize? none).toList ++ room) s := hcounted
    refine (hroom.replace (getElem_eq_of_node hnode) rfl ?_ ?_).mono .cons_self
    · simp [Node.fileSize?, uncount]
      omega
    · simp [Node.fileSize?, uncount, hsize, Word.sub_of_le hsize hbelow]

theorem Counted.deleteNode (hcounted : Counted room s) (hdelete : s.deleteNode i = some t)
    (hdir : ∀ fe, s.node i ≠ some (.file fe)) : Counted room t := by
  obtain ⟨-, rfl⟩ | ⟨n, hnode, rfl⟩ := deleteNode_cases hdelete
  · exact hcounted
  · cases n with
    | file fe => exact absurd hnode (hdir fe)
    | dir d => exact (hcounted.setNode none (getElem_eq_of_node hnode) rfl).of_eq rfl rfl rfl

/-! ### Files that are added -/

theorem Counted.addFile {old : Option Node} (fe : FileEntry)
    (hcounted : Counted (fe.fileSize :: room) s) (hget : s.mNodes[i]? = some old)
    (hold : Node.fileSize? old = none) (hnodes : t.mNodes = s.mNodes.set i (some (.file fe)))
    (hfiles : t.mTotalFiles = Word.add 32 s.mTotalFiles 1)
    (hsize : t.mTotalSize = Word.add 64 s.mTotalSize fe.fileSize) : Counted room t := by
  have hfew := hcounted.files_lt
  have hsmall := hcounted.size_lt
  rw [← hcounted.files_eq, List.length_cons] at hfew
  rw [← hcounted.size_eq, List.sum_cons] at hsmall
  have hroom : Counted ((Node.fileSize? (some (.file fe))).toList ++ room) s := hcounted
  have hplaced : Counted ((Node.fileSize? old).toList ++ room) t := by
    refine hroom.replace hget hnodes ?_ ?_
    · rw [hfiles, hold, Word.add_of_lt (by omega)]
      simp [Node.fileSize?, Nat.add_comm]
    · rw [hsize, hold, Word.add_of_lt (by omega)]
      simp [Node.fileSize?, Nat.add_comm]
  rwa [hold] at hplaced

theorem Counted.allocateNewIndex (hcounted : Counted room s)
    (halloc : s.allocateNewIndex = some (i, t)) :
    Counted room t ∧ t.mNodes[i]? = some none := by
  obtain ⟨free, hget, rfl⟩ | ⟨rfl, rfl⟩ := allocateNewIndex_cases halloc
  · exact ⟨hcounted.of_eq rfl rfl rfl, hget⟩
  · have hfree : Counted room { s with mFreeNodes := [] } := hcounted.of_eq rfl rfl rfl
    refine ⟨hfree.pushNode none rfl, ?_⟩
    simp [Storage.pushNode]

theorem Counted.createSubfile {indx : Nat} {file : Name × FileTS}
    (hcounted : Counted (file.2.size :: room) s) (hcreate : s.createSubfile indx file = some t) :
    Counted room t := by
  obtain ⟨u, hmodify, hcreate⟩ := Option.bind_eq_some_iff.mp hcreate
  have hroom := (hcounted.modifyDir hmodify).pushNode none rfl
  cases hcreate
  have hget : (u.pushNode none).mNodes[u.mNodes.length]? = some none := by
    simp [Storage.pushNode]
  refine hroom.addFile { FileEntry.new file.1 file.2.size file.2.modtime nullHash with
    row := s.mNodes.length, parentIndex := indx } hget rfl ?_ rfl rfl
  simp [Storage.pushNode, addSize, List.set_append_right]

theorem Counted.updateFile {hash : FileHash} {fname : Name} {size : Nat} {modfTime : Int}
    {result : Bool} (hcounted : Counted (size :: room) s)
    (hupdate : s.updateFile i hash fname size modfTime = some (result, t)) : Counted room t := by
  obtain rfl | ⟨fe, hnode, hnodes, -, hfiles, hsize, -⟩ := updateFile_cases hupdate
  · exact hcounted.mono .cons_self
  · obtain ⟨hle, -, hbelow⟩ := hcounted.size_of_file hnode
    have hsmall := hcounted.size_lt
    rw [← hcounted.size_eq, List.sum_cons] at hsmall
    rw [if_pos hle, Word.sub_of_le hle hbelow, Word.add_of_lt (by omega)] at hsize
    refine (hcounted.replace (getElem_eq_of_node hnode) hnodes ?_ ?_).mono .cons_self
    · simp [Node.fileSize?, hfiles]
    · simp [Node.fileSize?, hsize]
      omega

end Storage

end RetroShare.FileSharing
