import RetroShare.FileSharing.Proof.PeerUpdate

/-!
# The tree invariant over runs

Every node but the root has one place in the lists, in that of its parent, as long as the updates from
peers meet directories whose children can be told apart.
-/

namespace RetroShare.FileSharing

/-- The number of nodes that an operation can add. -/
def StorageOp.newNodes : StorageOp → Nat
  | updateSubDirectoryList _ subdirs _ => subdirs.toList.length
  | updateSubFilesList _ subfiles => subfiles.toList.length
  | updateDirEntry _ _ _ _ subdirsHash subfilesArray _ => subdirsHash.length + subfilesArray.length
  | _ => 0

/-- The operations that change the hierarchy after it was made or loaded. -/
def StorageOp.IsUpdate : StorageOp → Prop
  | check | load _ => False
  | _ => True

namespace Storage

/-- There are indices for the nodes that the operation can add. -/
def HasIndices (s : Storage) (op : StorageOp) : Prop := s.mNodes.length + op.newNodes ≤ noIndex

/-- A directory that is updated from a peer has no two subdirectories of one hash and no two files of
one name. -/
def ToldApart (s : Storage) : StorageOp → Prop
  | .updateDirEntry indx _ _ _ _ _ _ =>
      s.checkIndex indx .dir = true → s.DistinctHashes indx ∧ s.DistinctNames indx
  | _ => True

structure TreeShaped (s : Storage) : Prop where
  root : ∃ d, s.node 0 = some (.dir d)
  root_unlisted : ∀ i, ¬ s.Lists i 0
  dir_listed : ∀ kid e, s.node kid = some (.dir e) → kid ≠ 0 →
    ∃ d, s.node e.parentIndex = some (.dir d) ∧ d.subdirs.count kid = 1 ∧ kid ∉ d.subfiles
  file_listed : ∀ kid fe, s.node kid = some (.file fe) →
    ∃ d, s.node fe.parentIndex = some (.dir d) ∧ d.subfiles.count kid = 1 ∧ kid ∉ d.subdirs
  lister_eq : ∀ i kid n, s.Lists i kid → s.node kid = some n → i = n.parentIndex
  subdirs_live : ∀ i d, s.node i = some (.dir d) →
    ∀ kid ∈ d.subdirs, ∃ e, s.node kid = some (.dir e)
  subfiles_live : ∀ i d, s.node i = some (.dir d) →
    ∀ kid ∈ d.subfiles, ∃ fe, s.node kid = some (.file fe)

variable {lax : Prop} {s t : Storage}

theorem Linked.lister {good : Nat → Prop} {indx room : Nat} {kid : Nat} {n : Node}
    (hlinked : Linked False good indx [] room s) (hnode : s.node kid = some n) (hroot : kid ≠ 0) :
    ∃ i d, s.node i = some (.dir d) ∧ (kid ∈ d.subdirs ∨ kid ∈ d.subfiles) := by
  obtain hlax | hzero | hloose | ⟨i, hi⟩ :=
    hlinked.forest.covered kid fun hnone => by simp [links_eq_none.mp hnone] at hnode
  · exact hlax.elim
  · exact absurd hzero hroot
  · exact absurd hloose List.not_mem_nil
  · obtain ⟨d, hdir, hmem⟩ := lists_iff.mpr hi
    exact ⟨i, d, hdir, hmem⟩

theorem Linked.treeShaped {room : Nat} (hlinked : Linked False everywhere 0 [] room s) :
    s.TreeShaped := by
  have hdistinct : ∀ i d, s.node i = some (.dir d) → (d.subdirs ++ d.subfiles).Nodup :=
    fun i d hnode => hlinked.unshared.nodup i d hnode
  have hroot : ∃ d, s.node 0 = some (.dir d) := by
    obtain ⟨branches, leaves, hentry⟩ := hlinked.forest.root_branch
    obtain ⟨d, hnode, -⟩ := links_eq_branch.mp hentry
    exact ⟨d, hnode⟩
  constructor
  case root => exact hroot
  case root_unlisted => exact hlinked.unshared.root
  case dir_listed =>
    intro kid e hnode hne
    obtain ⟨i, d, hdir, hmem⟩ := hlinked.lister hnode hne
    have hi : e.parentIndex = i := hlinked.parent_eq i kid _ trivial ⟨d, hdir, hmem⟩ hnode
    have hnotFile : kid ∉ d.subfiles := by
      intro hfile
      obtain ⟨fe, hfe⟩ := hlinked.subfiles_file hdir hfile
      cases hnode.symm.trans hfe
    refine ⟨d, hi ▸ hdir, ?_, hnotFile⟩
    exact List.count_eq_one_of_mem (List.nodup_append.mp (hdistinct i d hdir)).1
      (hmem.resolve_right hnotFile)
  case file_listed =>
    intro kid fe hnode
    have hne : kid ≠ 0 := by
      rintro rfl
      obtain ⟨d, hdir⟩ := hroot
      cases hnode.symm.trans hdir
    obtain ⟨i, d, hdir, hmem⟩ := hlinked.lister hnode hne
    have hi : fe.parentIndex = i := hlinked.parent_eq i kid _ trivial ⟨d, hdir, hmem⟩ hnode
    have hnotDir : kid ∉ d.subdirs := by
      intro hsubdir
      obtain ⟨e, he⟩ := hlinked.subdirs_dir hdir hsubdir
      cases hnode.symm.trans he
    refine ⟨d, hi ▸ hdir, ?_, hnotDir⟩
    exact List.count_eq_one_of_mem (List.nodup_append.mp (hdistinct i d hdir)).2.1
      (hmem.resolve_left hnotDir)
  case lister_eq => exact fun i kid n hlists hnode =>
    (hlinked.parent_eq i kid n trivial hlists hnode).symm
  case subdirs_live => exact fun i d hdir kid hmem => hlinked.subdirs_dir hdir hmem
  case subfiles_live => exact fun i d hdir kid hmem => hlinked.subfiles_file hdir hmem

theorem linked_new : Linked lax everywhere 0 [] 0 Storage.new := by
  have hnode : ∀ i n, Storage.new.node i = some n → i = 0 ∧ n = .dir (.new []) := by
    intro i n hi
    cases i with
    | zero =>
        cases hi
        exact ⟨rfl, rfl⟩
    | succ i => cases hi
  have hbranch : ∀ i branches leaves, Storage.new.links i = some (.branch branches leaves) →
      branches = [] ∧ leaves = [] := by
    intro i branches leaves hentry
    obtain ⟨d, hdir, rfl, rfl⟩ := links_eq_branch.mp hentry
    cases (hnode i _ hdir).2
    exact ⟨rfl, rfl⟩
  have hlists : ∀ i kid, ¬ Forest.Lists Storage.new.links i kid := by
    rintro i kid ⟨branches, leaves, hentry, hmem⟩
    obtain ⟨rfl, rfl⟩ := hbranch i branches leaves hentry
    exact List.not_mem_nil hmem
  constructor
  case forest =>
    constructor
    case root_branch => exact ⟨[], [], rfl⟩
    case branches =>
      intro i branches leaves kid hentry hmem
      exact absurd ⟨branches, leaves, hentry, List.mem_append_left _ hmem⟩ (hlists i kid)
    case leaves =>
      intro i branches leaves kid hentry hmem
      exact absurd ⟨branches, leaves, hentry, List.mem_append_right _ hmem⟩ (hlists i kid)
    case nodup =>
      intro i branches leaves hentry
      obtain ⟨rfl, rfl⟩ := hbranch i branches leaves hentry
      exact List.nodup_nil
    case lister_eq => exact fun i _ kid hi => absurd hi (hlists i kid)
    case root_free => exact fun i => hlists i 0
    case loose_free => exact fun _ _ hmem => absurd hmem List.not_mem_nil
    case loose_present => exact fun _ hmem => absurd hmem List.not_mem_nil
    case root_not_loose => exact List.not_mem_nil
    case loose_nodup => exact List.nodup_nil
    case covered =>
      intro kid hpresent
      obtain ⟨n, hkid⟩ := Option.ne_none_iff_exists'.mp fun hnone => hpresent (links_eq_none.mpr hnone)
      exact .inr (.inl (hnode kid n hkid).1)
    case depth =>
      exact ⟨fun _ => 0, fun i kid hi => absurd hi (hlists i kid),
        fun _ hmem => absurd hmem List.not_mem_nil⟩
  case parent_eq => exact fun i kid _ _ hi => absurd (lists_iff.mp hi) (hlists i kid)
  case loose_parent => exact fun _ _ hmem => absurd hmem List.not_mem_nil
  case length_le => decide

theorem Linked.step {sha1sum : List UInt8 → FileHash} {op : StorageOp}
    (hlinked : Linked lax everywhere 0 [] 0 s) (hupdate : op.IsUpdate) (hroom : s.HasIndices op)
    (hapart : s.ToldApart op ∨ lax) (hstep : s.step sha1sum op = some t) :
    Linked lax everywhere 0 [] 0 t := by
  have hstart : Linked lax everywhere 0 [] op.newNodes s :=
    { hlinked with length_le := hroom }
  cases op with
  | updateSubDirectoryList indx subdirs seed =>
      obtain ⟨⟨result, u⟩, hupdate, rfl⟩ := Option.map_eq_some_iff.mp hstep
      exact hstart.updateSubDirectoryList hupdate
  | updateSubFilesList indx subfiles =>
      obtain ⟨⟨result, newFiles, u⟩, hupdate, rfl⟩ := Option.map_eq_some_iff.mp hstep
      exact hstart.updateSubFilesList hupdate
  | updateDirEntry indx dirName mostRecentTime dirModtime subdirsHash subfilesArray now =>
      obtain ⟨⟨result, u⟩, hupdate, rfl⟩ := Option.map_eq_some_iff.mp hstep
      exact hstart.updateDirEntry (fun hvalid => hapart.imp_left fun hapart => hapart hvalid) hupdate
  | removeDirectory indx =>
      obtain ⟨⟨result, u⟩, hremove, rfl⟩ := Option.map_eq_some_iff.mp hstep
      exact hlinked.removeDirectory hremove
  | updateFile fileIndex hash fname size modfTime =>
      obtain ⟨⟨result, u⟩, hupdate, rfl⟩ := Option.map_eq_some_iff.mp hstep
      exact hlinked.updateFile hupdate
  | updateHash fileIndex hash =>
      obtain ⟨⟨result, u⟩, hupdate, rfl⟩ := Option.map_eq_some_iff.mp hstep
      exact hlinked.updateHash hupdate
  | check => exact hupdate.elim
  | load data => exact hupdate.elim

/-- **The tree of the hierarchy.** Every node but the root is in one list, once, and that is a list of
its parent. -/
theorem treeShaped_of_reaches (sha1sum : List UInt8 → FileHash)
    (hreach : Transition.Reaches (Storage.step sha1sum)
      (fun s op => op.IsUpdate ∧ s.HasIndices op ∧ s.ToldApart op) Storage.new s) :
    s.TreeShaped := by
  refine (hreach.invariant (Linked False everywhere 0 [] 0) ?_ linked_new).treeShaped
  intro before op after hlinked ⟨hupdate, hroom, hapart⟩ hstep
  exact hlinked.step hupdate hroom (.inl hapart) hstep

/-- What the root looks like after one answer of its peer. -/
def announced (hashes : List FileHash) : Storage :=
  ((Storage.new.updateDirEntry 0 [] 0 0 hashes [.new [97] 1 0 nullHash] 0).map (·.2)).getD .new

def announce (hashes : List FileHash) : StorageOp :=
  .updateDirEntry 0 [] 0 0 hashes [.new [97] 1 0 nullHash] 0

theorem toldApart_new (hashes : List FileHash) : Storage.new.ToldApart (announce hashes) := by
  intro _
  constructor <;>
  · intro d hdir
    cases hdir
    exact .nil

theorem isUpdate_announce (hashes : List FileHash) : (announce hashes).IsUpdate := trivial

theorem treeShaped_of_reaches_announced :
    Storage.TreeShaped (announced [nullHash]) := by
  refine treeShaped_of_reaches (fun _ => nullHash)
    ((Transition.Reaches.refl Storage.new).tail
      ⟨isUpdate_announce [nullHash], ?_, toldApart_new [nullHash]⟩ ?_)
  · unfold HasIndices
    decide
  · rfl

/-- Two subdirectories of one hash, and then none: the first of the two is listed nowhere. -/
theorem treeShaped_counterexample :
    ¬ ∀ (sha1sum : List UInt8 → FileHash) (s : Storage),
      Transition.Reaches (Storage.step sha1sum) (fun s op => op.IsUpdate ∧ s.HasIndices op)
        Storage.new s → s.TreeShaped := by
  intro hclaim
  let sha1sum : List UInt8 → FileHash := fun _ => nullHash
  have hfirst : Storage.new.step sha1sum (announce [nullHash, nullHash]) =
      some (announced [nullHash, nullHash]) := rfl
  have hsome : ((announced [nullHash, nullHash]).step sha1sum (announce [])).isSome = true := rfl
  obtain ⟨s, hsecond⟩ := Option.isSome_iff_exists.mp hsome
  have hnodes : ((announced [nullHash, nullHash]).step sha1sum (announce [])).map
      (fun s => (s.links 0, s.links 1, s.parentOf 1)) =
        some (some (.branch [] [3]), some (.branch [] []), some 0) := rfl
  rw [hsecond] at hnodes
  simp only [Option.map_some, Option.some.injEq, Prod.mk.injEq] at hnodes
  obtain ⟨hroot, horphan, hparent⟩ := hnodes
  have hroom : Storage.new.HasIndices (announce [nullHash, nullHash]) := by
    unfold HasIndices
    decide
  have hroom' : (announced [nullHash, nullHash]).HasIndices (announce []) := by
    unfold HasIndices
    decide
  have htree := hclaim sha1sum s
    (((Transition.Reaches.refl Storage.new).tail ⟨isUpdate_announce _, hroom⟩ hfirst).tail
      ⟨isUpdate_announce [], hroom'⟩ hsecond)
  obtain ⟨d, hdir, hsubdirs, -⟩ := links_eq_branch.mp hroot
  obtain ⟨e, hkid, -⟩ := links_eq_branch.mp horphan
  obtain ⟨d', hdir', hcount, -⟩ := htree.dir_listed 1 e hkid (by decide)
  rw [parentOf, hkid] at hparent
  have hzero : e.parentIndex = 0 := Option.some.inj hparent
  rw [hzero] at hdir'
  cases hdir.symm.trans hdir'
  rw [hsubdirs] at hcount
  cases hcount

end Storage

end RetroShare.FileSharing
