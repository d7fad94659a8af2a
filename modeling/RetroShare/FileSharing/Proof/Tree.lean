import RetroShare.FileSharing.Proof.Links

/-!
# The tree in every run

The operations of the hierarchy keep its tree, as long as a directory that is updated from a peer
has no two subdirectories of one hash and no two files of one name.
-/

namespace RetroShare.FileSharing.Storage

variable {s t : Storage} {lax : Prop} {good : Nat → Prop} {indx room : Nat}

/-- Every directory is the parent of its children. -/
def everywhere : Nat → Prop := fun _ => True

/-! ### Removal -/

theorem Linked.unshared (hlinked : Linked lax good indx [] room s) : s.Unshared where
  nodup i d hnode := hlinked.forest.nodup i _ _ (links_eq_branch.mpr ⟨d, hnode, rfl, rfl⟩)
  parent_eq i j kid hi hj := hlinked.forest.lister_eq i j kid (lists_iff.mp hi) (lists_iff.mp hj)
  root i hi := hlinked.forest.root_free i (lists_iff.mp hi)
  lt_length i kid hi := by
    have hpresent := hlinked.forest.kid_present (lists_iff.mp hi)
    obtain ⟨n, hnode⟩ := Option.ne_none_iff_exists'.mp fun hnone => hpresent (links_eq_none.mpr hnone)
    exact lt_length_of_node hnode

theorem Unshared.check_before {errors : String} {i : Nat} {n : Node} (hunshared : s.Unshared)
    (hcheck : s.check = some (t, errors)) (hnode : t.node i = some n) : s.node i = some n := by
  obtain ⟨u, hits, hscanned, hkept, hgone, -⟩ := check_cases hcheck
  by_cases hhit : Hit hits i
  · exact (node_congr (hscanned.same hunshared) i).symm.trans ((hkept i hhit).symm.trans hnode)
  · simp [hgone i hhit] at hnode

/-- The consistency check only finds nodes that have gone astray. -/
theorem Linked.check {errors : String} (hlinked : Linked lax good indx [] room s)
    (hcheck : s.check = some (t, errors)) : Linked lax good indx [] room t := by
  obtain ⟨u, hits, hscanned, hkept, hgone, -⟩ := check_cases hcheck
  have hsame : ∀ i, u.node i = s.node i := node_congr (hscanned.same hlinked.unshared)
  have hbefore : ∀ i n, t.node i = some n → s.node i = some n := fun i n hnode =>
    hlinked.unshared.check_before hcheck hnode
  have hdropped : ∀ i, t.node i ≠ s.node i →
      t.node i = none ∧ s.node i ≠ none ∧ i ≠ 0 ∧ ∀ j, ¬ s.Lists j i := by
    intro i hne
    have hmiss : ¬ Hit hits i := fun hhit => hne ((hkept i hhit).trans (hsame i))
    have hpresent : s.node i ≠ none := fun hnone => hne ((hgone i hmiss).trans hnone.symm)
    refine ⟨hgone i hmiss, hpresent, ?_, fun j hj => ?_⟩
    · rintro rfl
      exact hmiss (hscanned.hit hpresent fun hroot => absurd rfl hroot)
    · exact hmiss (hscanned.hit hpresent fun _ => ⟨j, hj⟩)
  constructor
  case forest =>
    refine hlinked.forest.drop (fun i => ?_) fun i hne => ?_
    · by_cases hi : t.node i = s.node i
      · exact .inl (by rw [links, links, hi])
      · obtain ⟨hnone, -, hroot, hunlisted⟩ := hdropped i hi
        exact .inr ⟨links_eq_none.mpr hnone, fun j hj => hunlisted j (lists_iff.mpr hj), hroot,
          List.not_mem_nil⟩
    · have hi : t.node i ≠ s.node i := fun heq => hne (by rw [links, links, heq])
      obtain ⟨-, hpresent, hroot, hunlisted⟩ := hdropped i hi
      obtain hlax | hzero | hloose | ⟨j, hj⟩ :=
        hlinked.forest.covered i fun hnone => hpresent (links_eq_none.mp hnone)
      · exact hlax
      · exact absurd hzero hroot
      · exact absurd hloose List.not_mem_nil
      · exact absurd (lists_iff.mpr hj) (hunlisted j)
  case parent_eq =>
    rintro i kid n hi ⟨d, hdir, hmem⟩ hkid
    exact hlinked.parent_eq i kid n hi ⟨d, hbefore i _ hdir, hmem⟩ (hbefore kid n hkid)
  case loose_parent => exact fun _ _ hmem => absurd hmem List.not_mem_nil
  case length_le =>
    rw [length_check hcheck]
    exact hlinked.length_le

theorem Linked.removeDirectory {result : Bool} (hlinked : Linked lax everywhere 0 [] room s)
    (hremove : s.removeDirectory indx = some (result, t)) : Linked lax everywhere 0 [] room t := by
  obtain ⟨-, rfl⟩ | ⟨d, p, place, u, errors, -, -, -, hparent, hplace, hrecurs, hcheck⟩ :=
    removeDirectory_cases hremove
  · exact hlinked
  · have htop := hlinked.settled (fun _ h => h) le_rfl d.parentIndex
    have hdetached := htop.detachSubdir hparent (swapRemove_perm hplace)
    have hpruned : Linked lax everywhere d.parentIndex [] room u :=
      hdetached.recursRemove (.refl _) hrecurs
    exact (hpruned.settled (fun _ h => h) le_rfl 0).check hcheck

/-! ### The disk -/

theorem Linked.keepSubdirs {subdirs : OrderedMap Name Unit} {passes i : Nat}
    {create create' : OrderedMap Name Unit} (hlinked : Linked lax everywhere 0 [] room s)
    (hkeep : keepSubdirs indx subdirs passes i s create = some (t, create')) :
    Linked lax everywhere 0 [] room t ∧ create'.toList.length ≤ create.toList.length := by
  induction passes generalizing s i create with
  | zero =>
      cases hkeep
      exact ⟨hlinked, le_rfl⟩
  | succ passes ih =>
      obtain ⟨d, -, hkeep⟩ := Option.bind_eq_some_iff.mp hkeep
      split at hkeep
      · cases hkeep
        exact ⟨hlinked, le_rfl⟩
      · obtain ⟨entry, -, hkeep⟩ := Option.bind_eq_some_iff.mp hkeep
        split at hkeep
        · obtain ⟨⟨removed, u⟩, hremove, hkeep⟩ := Option.bind_eq_some_iff.mp hkeep
          exact ih (hlinked.removeDirectory hremove) hkeep
        · obtain ⟨hlinked, hle⟩ := ih hlinked hkeep
          exact ⟨hlinked, hle.trans (OrderedMap.toList_erase_subperm create _).length_le⟩

/-- A node without children is added behind the end, and the directory lists it. -/
theorem Linked.pushChild {d : DirEntry} {n : Node} (hlinked : Linked lax good indx [] (room + 1) s)
    (hnode : s.node indx = some (.dir d)) (hparent : n.parentIndex = indx)
    (hentry : n.entry = .leaf ∨ n.entry = .branch [] []) :
    Linked lax good indx [s.mNodes.length] room (s.pushNode (some n)) := by
  refine hlinked.fresh (by simp [hnode]) (node_of_length_le le_rfl) hentry (fun _ => hparent)
    (node_pushNode_self _) (fun j hj => node_pushNode_ne _ hj) ?_
  have := hlinked.length_le
  rw [length_pushNode]
  omega

/-- The list of the directory is written before the node in the code. -/
theorem node_setNode_pushNode {n n' : Option Node} (hlt : indx < s.mNodes.length) (j : Nat) :
    ((s.setNode indx n).pushNode n').node j = ((s.pushNode n').setNode indx n).node j := by
  have hlength : (s.setNode indx n).mNodes.length = s.mNodes.length := length_setNode n
  by_cases hj : j = s.mNodes.length
  · subst hj
    rw [← hlength, node_pushNode_self, node_setNode_ne _ (by omega), hlength, node_pushNode_self]
  · rw [node_pushNode_ne _ (by omega)]
    by_cases hi : j = indx
    · subst hi
      rw [node_setNode_self _ hlt, node_setNode_self _ (by rw [length_pushNode]; omega)]
    · rw [node_setNode_ne _ hi, node_setNode_ne _ hi, node_pushNode_ne _ hj]

theorem Linked.createSubdir {sha1sum : List UInt8 → FileHash} {seed : FileHash} {name : Name}
    (hlinked : Linked lax good indx [] (room + 1) s)
    (hcreate : s.createSubdir sha1sum indx seed name = some t) : Linked lax good indx [] room t := by
  obtain ⟨d, hget, hcreate⟩ := Option.bind_eq_some_iff.mp hcreate
  obtain ⟨u, hmodify, hcreate⟩ := Option.bind_eq_some_iff.mp hcreate
  cases hcreate
  obtain ⟨d', hnode, rfl⟩ := modifyDir_eq_some hmodify
  have hlt := lt_length_of_node hnode
  have hpush := hlinked.pushChild (n := .dir { DirEntry.new name with
    row := s.mNodes.length, parentIndex := indx, dirModtime := 0,
    dirParentPath := makePath d.dirParentPath d.dirName,
    dirHash := createDirHash sha1sum name d.dirHash seed }) hnode rfl (.inr rfl)
  have hlisted := hpush.appendSubdir ((node_pushNode_ne _ hlt.ne).trans hnode)
    (node_pushNode_self _) (.refl _)
  refine hlisted.congr ?_ fun j => ?_
  · simp [Storage.pushNode]
  · exact node_setNode_pushNode hlt j

theorem Linked.createSubfile {file : Name × FileTS} (hlinked : Linked lax good indx [] (room + 1) s)
    (hcreate : s.createSubfile indx file = some t) : Linked lax good indx [] room t := by
  obtain ⟨u, hmodify, hcreate⟩ := Option.bind_eq_some_iff.mp hcreate
  cases hcreate
  obtain ⟨d, hnode, rfl⟩ := modifyDir_eq_some hmodify
  have hlt := lt_length_of_node hnode
  have hpush := hlinked.pushChild (n := .file {
    FileEntry.new file.1 file.2.size file.2.modtime nullHash with
      row := s.mNodes.length, parentIndex := indx }) hnode rfl (.inl rfl)
  have hlisted := hpush.appendSubfile ((node_pushNode_ne _ hlt.ne).trans hnode)
    (node_pushNode_self _) (.refl _)
  refine hlisted.congr ?_ fun j => ?_
  · simp [Storage.pushNode, addSize]
  · exact node_setNode_pushNode hlt j

theorem Linked.updateSubDirectoryList {sha1sum : List UInt8 → FileHash}
    {subdirs : OrderedMap Name Unit} {seed : FileHash} {result : Bool}
    (hlinked : Linked lax everywhere 0 [] subdirs.toList.length s)
    (hupdate : s.updateSubDirectoryList sha1sum indx subdirs seed = some (result, t)) :
    Linked lax everywhere 0 [] 0 t := by
  unfold Storage.updateSubDirectoryList at hupdate
  split at hupdate
  · cases hupdate
    exact hlinked.mono (Nat.zero_le _)
  · obtain ⟨d, -, hupdate⟩ := Option.bind_eq_some_iff.mp hupdate
    obtain ⟨⟨u, create⟩, hkeep, hupdate⟩ := Option.bind_eq_some_iff.mp hupdate
    obtain ⟨v, hloop, hupdate⟩ := Option.bind_eq_some_iff.mp hupdate
    cases hupdate
    obtain ⟨hu, hfewer⟩ := hlinked.keepSubdirs hkeep
    have hstart : Linked lax everywhere indx [] (create.toList.map Prod.fst).length u :=
      hu.settled (fun _ h => h) (by rwa [List.length_map]) indx
    have hend := Transition.foldlM_keeps
      (fun (rest : List Name) v => Linked lax everywhere indx [] rest.length v)
      (fun _ _ _ _ hbefore hpass => hbefore.createSubdir hpass) _ _ _ hstart hloop
    exact hend.settled (fun _ h => h) le_rfl 0

theorem Linked.updateFile {loose : List Nat} {i : Nat} {hash : FileHash} {fname : Name}
    {size : Nat} {modfTime : Int} {result : Bool} (hlinked : Linked lax good indx loose room s)
    (hupdate : s.updateFile i hash fname size modfTime = some (result, t)) :
    Linked lax good indx loose room t := by
  obtain rfl | ⟨fe, hnode, hnodes, -⟩ := updateFile_cases hupdate
  · exact hlinked
  · exact hlinked.updateFileNode hnode hnodes rfl

theorem Linked.updateHash {loose : List Nat} {i : Nat} {hash : FileHash} {result : Bool}
    (hlinked : Linked lax good indx loose room s)
    (hupdate : s.updateHash i hash = some (result, t)) : Linked lax good indx loose room t := by
  unfold Storage.updateHash at hupdate
  split at hupdate
  · cases hupdate
    exact hlinked
  · obtain ⟨u, hmodify, hupdate⟩ := Option.bind_eq_some_iff.mp hupdate
    cases hupdate
    obtain ⟨fe, hnode, rfl⟩ := modifyFile_eq_some hmodify
    have hnodes : (s.setNode i (some (.file { fe with fileHash := hash }))).mNodes =
      s.mNodes.set i (some (.file { fe with fileHash := hash })) := rfl
    exact hlinked.updateFileNode hnode hnodes rfl

theorem Linked.refreshSubfile {loose : List Nat} {kid : Nat} {ts : FileTS}
    (hlinked : Linked lax good indx loose room s) (hrefresh : s.refreshSubfile kid ts = some t) :
    Linked lax good indx loose room t := by
  obtain ⟨fe, hnode, rfl | rfl⟩ := refreshSubfile_cases hrefresh
  · exact hlinked
  · have hnodes : (s.setNode kid (some (.file { fe with
      fileHash := nullHash, fileModtime := ts.modtime, fileSize := ts.size }))).mNodes =
      s.mNodes.set kid (some (.file { fe with
        fileHash := nullHash, fileModtime := ts.modtime, fileSize := ts.size })) := rfl
    exact hlinked.updateFileNode hnode hnodes rfl

/-- The file is deleted before its index leaves the list. -/
theorem Linked.removeListed {d : DirEntry} {kid place : Nat} {u : Storage}
    (hlinked : Linked lax good indx [] room s) (hnode : s.node indx = some (.dir d))
    (hplace : d.subfiles[place]? = some kid) (hdelete : s.deleteFileNode kid = some u)
    (hmodify : u.modifyDir indx (fun d => { d with subfiles := swapRemove d.subfiles place }) =
      some t) : Linked lax good indx [] room t := by
  have hdetached := hlinked.detachSubfile hnode (swapRemove_perm hplace)
  obtain ⟨fe, hfile⟩ := hlinked.subfiles_file hnode (List.mem_of_getElem? hplace)
  have hne : indx ≠ kid := by
    rintro rfl
    rw [hnode] at hfile
    cases hfile
  have hkept : ∀ j, j ≠ kid → u.node j = s.node j := fun j hj => deleteFileNode_kept hdelete hj
  obtain ⟨d', hnode', rfl⟩ := modifyDir_eq_some hmodify
  rw [hkept indx hne, hnode] at hnode'
  cases hnode'
  have hlt := lt_length_of_node hnode
  have hlength := length_deleteFileNode hdelete
  refine hdetached.dropFile (.refl _) ((node_setNode_ne _ hne.symm).trans hfile) ?_ (fun j hj => ?_) ?_
  · rw [node_setNode_ne _ hne.symm]
    exact (removes_deleteFileNode hdelete).2
  · by_cases hi : j = indx
    · subst hi
      rw [node_setNode_self _ hlt, node_setNode_self _ (by omega)]
    · rw [node_setNode_ne _ hi, node_setNode_ne _ hi, hkept j hj]
  · rw [length_setNode, length_setNode, hlength]

theorem Linked.keepSubfiles {subfiles : OrderedMap Name FileTS} {passes i : Nat}
    {newFiles newFiles' : OrderedMap Name FileTS} (hlinked : Linked lax good indx [] room s)
    (hkeep : Storage.keepSubfiles indx subfiles passes i s newFiles = some (t, newFiles')) :
    Linked lax good indx [] room t ∧ newFiles'.toList.length ≤ newFiles.toList.length := by
  induction passes generalizing s i newFiles with
  | zero =>
      cases hkeep
      exact ⟨hlinked, le_rfl⟩
  | succ passes ih =>
      obtain ⟨d, hget, hkeep⟩ := Option.bind_eq_some_iff.mp hkeep
      have hdir := getDir_eq_some.mp hget
      split at hkeep
      · cases hkeep
        exact ⟨hlinked, le_rfl⟩
      · rename_i kid hplace
        obtain ⟨fe, -, hkeep⟩ := Option.bind_eq_some_iff.mp hkeep
        split at hkeep
        · obtain ⟨u, hdelete, hkeep⟩ := Option.bind_eq_some_iff.mp hkeep
          obtain ⟨v, hmodify, hkeep⟩ := Option.bind_eq_some_iff.mp hkeep
          exact ih (hlinked.removeListed hdir hplace hdelete hmodify) hkeep
        · obtain ⟨u, hrefresh, hkeep⟩ := Option.bind_eq_some_iff.mp hkeep
          obtain ⟨hlinked, hle⟩ := ih (hlinked.refreshSubfile hrefresh) hkeep
          exact ⟨hlinked, hle.trans (OrderedMap.toList_erase_subperm newFiles _).length_le⟩

theorem Linked.updateSubFilesList {subfiles newFiles : OrderedMap Name FileTS} {result : Bool}
    (hlinked : Linked lax everywhere 0 [] subfiles.toList.length s)
    (hupdate : s.updateSubFilesList indx subfiles = some (result, newFiles, t)) :
    Linked lax everywhere 0 [] 0 t := by
  unfold Storage.updateSubFilesList at hupdate
  split at hupdate
  · cases hupdate
    exact hlinked.mono (Nat.zero_le _)
  · obtain ⟨d, -, hupdate⟩ := Option.bind_eq_some_iff.mp hupdate
    obtain ⟨⟨u, create⟩, hkeep, hupdate⟩ := Option.bind_eq_some_iff.mp hupdate
    obtain ⟨v, hloop, hupdate⟩ := Option.bind_eq_some_iff.mp hupdate
    cases hupdate
    have htop : Linked lax everywhere indx [] subfiles.toList.length s :=
      hlinked.settled (fun _ h => h) le_rfl indx
    obtain ⟨hu, hfewer⟩ := htop.keepSubfiles hkeep
    have hend := Transition.foldlM_keeps
      (fun (rest : List (Name × FileTS)) v => Linked lax everywhere indx [] rest.length v)
      (fun _ _ _ _ hbefore hpass => hbefore.createSubfile hpass) _ _ _ (hu.mono hfewer) hloop
    exact hend.settled (fun _ h => h) le_rfl 0

end RetroShare.FileSharing.Storage
