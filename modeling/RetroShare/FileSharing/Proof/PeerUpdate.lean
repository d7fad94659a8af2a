import RetroShare.FileSharing.Proof.Tree

/-!
# A directory from a peer

While a directory is rebuilt, the children that it had are loose: each is put back where its peer
lists it again, and what is left over is removed.
-/

namespace RetroShare.FileSharing.Storage

variable {lax : Prop} {s t u : Storage} {indx room : Nat}

/-! ### The children by key -/

section Existing

variable {Key : Type} [LinearOrder Key] {keyOf : Nat → Option Key}

def values (existing : OrderedMap Key Nat) : List Nat := existing.toList.map Prod.snd

theorem values_perm_cons_erase {existing : OrderedMap Key Nat} {key : Key} {kid : Nat}
    (hfound : existing[key]? = some kid) :
    (values existing).Perm (kid :: values (existing.erase key)) :=
  (OrderedMap.toList_perm_cons_erase existing hfound).map Prod.snd

theorem mem_values {existing : OrderedMap Key Nat} {kid : Nat} :
    kid ∈ values existing ↔ ∃ key : Key, existing[key]? = some kid := by
  unfold values
  constructor
  · intro hmem
    obtain ⟨⟨key, kid⟩, hentry, rfl⟩ := List.mem_map.mp hmem
    exact ⟨key, (OrderedMap.mem_toList existing).mp hentry⟩
  · rintro ⟨key, hfound⟩
    exact List.mem_map.mpr ⟨(key, kid), (OrderedMap.mem_toList existing).mpr hfound, rfl⟩

theorem values_insert_perm (existing : OrderedMap Key Nat) {key : Key} (kid : Nat)
    (hfresh : existing[key]? = none) :
    (values (existing.insert key kid)).Perm (kid :: values existing) := by
  have hperm := values_perm_cons_erase (OrderedMap.lookup_insert_self existing key kid)
  rwa [OrderedMap.erase_insert_of_absent existing kid hfresh] at hperm

theorem values_insert_subperm (existing : OrderedMap Key Nat) (key : Key) (kid : Nat) :
    (values (existing.insert key kid)).Subperm (kid :: values existing) := by
  have hperm := values_perm_cons_erase (OrderedMap.lookup_insert_self existing key kid)
  rw [OrderedMap.erase_insert] at hperm
  obtain ⟨kept, hkept, hsublist⟩ := OrderedMap.toList_erase_subperm existing key
  refine hperm.subperm.trans ((List.subperm_cons kid).mpr ?_)
  exact ⟨kept.map Prod.snd, hkept.map Prod.snd, hsublist.map Prod.snd⟩

theorem existingKids_subperm {kids : List Nat} {existing : OrderedMap Key Nat}
    (hexisting : existingKids keyOf kids = some existing) : (values existing).Subperm kids := by
  have hend := Transition.foldlM_keeps
    (fun rest (existing : OrderedMap Key Nat) => (values existing ++ rest).Subperm kids)
    (fun kid rest before after hbefore hpass => by
      obtain ⟨key, -, rfl⟩ := Option.map_eq_some_iff.mp hpass
      have hinsert := (List.subperm_append_right rest).mpr (values_insert_subperm before key kid)
      exact (hinsert.trans List.perm_middle.symm.subperm).trans hbefore)
    kids ∅ existing (List.Subperm.refl kids) hexisting
  rwa [List.append_nil] at hend

theorem existingKids_mem {kids : List Nat} {existing : OrderedMap Key Nat}
    (hexisting : existingKids keyOf kids = some existing) {key : Key} {kid : Nat}
    (hfound : existing[key]? = some kid) : kid ∈ kids ∧ keyOf kid = some key := by
  have hend := Transition.foldlM_keeps
    (fun rest (existing : OrderedMap Key Nat) => rest ⊆ kids ∧
      ∀ key kid, existing[key]? = some kid → kid ∈ kids ∧ keyOf kid = some key)
    (fun kid rest before after ⟨hsubset, hbefore⟩ hpass => by
      obtain ⟨key, hkey, rfl⟩ := Option.map_eq_some_iff.mp hpass
      refine ⟨fun k hmem => hsubset (List.mem_cons_of_mem kid hmem), fun key' kid' hfound => ?_⟩
      rw [OrderedMap.lookup_insert] at hfound
      split at hfound
      · rename_i heq
        cases hfound
        exact ⟨hsubset List.mem_cons_self, heq ▸ hkey⟩
      · exact hbefore key' kid' hfound)
    kids ∅ existing ⟨List.Subset.refl _, fun key kid hfound => by simp at hfound⟩ hexisting
  exact hend.2 key kid hfound

/-- Children with different keys are all found again. -/
theorem existingKids_perm {kids : List Nat} {existing : OrderedMap Key Nat}
    (hdistinct : kids.Pairwise fun a b => keyOf a ≠ keyOf b)
    (hexisting : existingKids keyOf kids = some existing) : (values existing).Perm kids := by
  have hend := Transition.foldlM_keeps
    (fun rest (existing : OrderedMap Key Nat) => ∃ done, kids = done ++ rest ∧
      (values existing).Perm done ∧
      ∀ key kid, existing[key]? = some kid → kid ∈ done ∧ keyOf kid = some key)
    (fun kid rest before after ⟨done, hkids, hperm, hkeys⟩ hpass => by
      obtain ⟨key, hkey, rfl⟩ := Option.map_eq_some_iff.mp hpass
      have hfresh : before[key]? = none := by
        by_contra hsome
        obtain ⟨other, hother⟩ := Option.ne_none_iff_exists'.mp hsome
        obtain ⟨hmem, hsame⟩ := hkeys key other hother
        rw [hkids] at hdistinct
        exact (List.pairwise_append.mp hdistinct).2.2 other hmem kid List.mem_cons_self
          (hsame.trans hkey.symm)
      refine ⟨done ++ [kid], by simp [hkids], ?_, fun key' kid' hfound => ?_⟩
      · exact ((values_insert_perm before kid hfresh).trans (hperm.cons kid)).trans
          (List.perm_append_singleton kid done).symm
      · rw [OrderedMap.lookup_insert] at hfound
        split at hfound
        · rename_i heq
          cases hfound
          exact ⟨by simp, heq ▸ hkey⟩
        · obtain ⟨hmem, hsame⟩ := hkeys key' kid' hfound
          exact ⟨List.mem_append_left _ hmem, hsame⟩)
    kids ∅ existing ⟨[], rfl, .of_eq rfl, fun key kid hfound => by simp at hfound⟩ hexisting
  obtain ⟨done, hkids, hperm, -⟩ := hend
  rwa [hkids, List.append_nil]

end Existing

/-- The directory is being rebuilt: its children need not have their parent index yet. -/
abbrev Rebuilt (lax : Prop) (indx : Nat) (loose : List Nat) (room : Nat) (s : Storage) : Prop :=
  Linked lax (· ≠ indx) indx loose room s

/-! ### Subdirectories -/

theorem Rebuilt.subdirSlot {d : DirEntry} {dirName : Name} {hash : FileHash} {i : Nat}
    {existing existing' : OrderedMap FileHash Nat}
    (hrebuilt : Rebuilt lax indx (values existing) (room + 1) s) (htop : s.node indx = some (.dir d))
    (hdirs : ∀ kid ∈ values existing, ∃ e, s.node kid = some (.dir e))
    (hslot : s.subdirSlot indx dirName existing hash = some (i, t, existing')) :
    Rebuilt lax indx (i :: values existing') room t ∧
      (∀ kid ∈ i :: values existing', ∃ e, t.node kid = some (.dir e)) ∧
      ∀ j, s.node j ≠ none → t.node j = s.node j := by
  unfold Storage.subdirSlot at hslot
  split at hslot
  · rename_i kid hfound
    obtain ⟨hfound, -⟩ := Option.filter_eq_some_iff.mp hfound
    cases hslot
    have hperm := values_perm_cons_erase hfound
    exact ⟨(hrebuilt.mono (Nat.le_succ room)).perm hperm,
      fun kid hmem => hdirs kid (hperm.symm.subset hmem), fun _ _ => rfl⟩
  · obtain ⟨⟨k, u⟩, halloc, hslot⟩ := Option.bind_eq_some_iff.mp hslot
    obtain ⟨d', -, hslot⟩ := Option.bind_eq_some_iff.mp hslot
    cases hslot
    obtain ⟨hplaced, hself, hfree, hother⟩ := hrebuilt.allocate
      (n := .dir { DirEntry.new [] with
        dirParentPath := makePath d'.dirParentPath dirName, dirHash := hash })
      (u := { u.setNode i _ with mDirHashes := u.mDirHashes.insert hash i })
      (by simp [htop]) halloc (.inr rfl) (fun hne => absurd rfl hne) rfl
    have hkept : ∀ j, s.node j ≠ none → _ = s.node j := fun j hj =>
      hother j fun heq => hj (heq ▸ hfree)
    refine ⟨hplaced, fun kid hmem => ?_, hkept⟩
    obtain rfl | hmem := List.mem_cons.mp hmem
    · exact ⟨_, hself⟩
    · obtain ⟨e, he⟩ := hdirs kid hmem
      exact ⟨e, (hkept kid (by simp [he])).trans he⟩

/-- The directory keeps all but its subdirectories, and its files stay. -/
structure FilesKept (indx : Nat) (d : DirEntry) (s t : Storage) : Prop where
  top : ∃ kids, t.node indx = some (.dir { d with subdirs := kids })
  files : ∀ j ∈ d.subfiles, ∃ fe, s.node j = some (.file fe) ∧ t.node j = some (.file fe)

theorem FilesKept.step {d : DirEntry} {kids : List Nat} (hkept : FilesKept indx d s t)
    (htop : u.node indx = some (.dir { d with subdirs := kids }))
    (hfiles : ∀ j fe, j ∈ d.subfiles → t.node j = some (.file fe) → u.node j = t.node j) :
    FilesKept indx d s u where
  top := ⟨kids, htop⟩
  files j hmem := by
    obtain ⟨fe, hbefore, hafter⟩ := hkept.files j hmem
    exact ⟨fe, hbefore, (hfiles j fe hmem hafter).trans hafter⟩

theorem Rebuilt.placeSubdir {d : DirEntry} {dirName : Name} {hash : FileHash} {s₀ : Storage}
    {existing existing' : OrderedMap FileHash Nat}
    (hrebuilt : Rebuilt lax indx (values existing) (room + 1) s)
    (hdirs : ∀ kid ∈ values existing, ∃ e, s.node kid = some (.dir e))
    (hkept : FilesKept indx d s₀ s)
    (hplace : Storage.placeSubdir indx dirName (s, existing) hash = some (t, existing')) :
    Rebuilt lax indx (values existing') room t ∧
      (∀ kid ∈ values existing', ∃ e, t.node kid = some (.dir e)) ∧ FilesKept indx d s₀ t := by
  obtain ⟨⟨i, u, existing''⟩, hslot, hplace⟩ := Option.bind_eq_some_iff.mp hplace
  obtain ⟨v, hmodify, hplace⟩ := Option.bind_eq_some_iff.mp hplace
  cases hplace
  obtain ⟨kids, htop⟩ := hkept.top
  obtain ⟨hu, hdirs', hkept'⟩ := hrebuilt.subdirSlot htop hdirs hslot
  obtain ⟨d', hnode, rfl⟩ := modifyDir_eq_some hmodify
  have htop' := (hkept' indx (by simp [htop])).trans htop
  rw [hnode] at htop'
  cases htop'
  obtain ⟨e, he⟩ := hdirs' i List.mem_cons_self
  have hset : ∀ j, _ = if j = indx then some _ else u.node j :=
    node_of_set (lt_length_of_node hnode)
      (show (u.setNode indx _).mNodes = u.mNodes.set indx (some (.dir
        { d with subdirs := kids ++ [i] })) from rfl)
  refine ⟨(hu.appendSubdir hnode he (.refl _)).congr rfl fun _ => rfl, fun kid hmem => ?_, ?_⟩
  · by_cases hkid : kid = indx
    · exact ⟨_, (hset kid).trans (if_pos hkid)⟩
    · obtain ⟨e', he'⟩ := hdirs' kid (List.mem_cons_of_mem i hmem)
      exact ⟨e', ((hset kid).trans (if_neg hkid)).trans he'⟩
  · refine hkept.step ((hset indx).trans (if_pos rfl)) fun j fe _ hfile => ?_
    have hj : j ≠ indx := by
      rintro rfl
      rw [htop] at hfile
      cases hfile
    exact ((hset j).trans (if_neg hj)).trans (hkept' j (by simp [hfile]))

theorem Rebuilt.removeSubdir {d : DirEntry} {s₀ : Storage} {kid : Nat} {rest : List Nat}
    (hrebuilt : Rebuilt lax indx (kid :: rest) room s)
    (hdirs : ∀ k ∈ kid :: rest, ∃ e, s.node k = some (.dir e)) (hkept : FilesKept indx d s₀ s)
    (hremove : s.removeSubdir kid = some t) :
    Rebuilt lax indx rest room t ∧ (∀ k ∈ rest, ∃ e, t.node k = some (.dir e)) ∧
      FilesKept indx d s₀ t := by
  obtain ⟨e, he⟩ := hdirs kid List.mem_cons_self
  have hcheck : s.checkIndex kid .dir = true := by
    simp [checkIndex, he, Node.type, hrebuilt.ne_noIndex he]
  simp only [Storage.removeSubdir, hcheck, Bool.not_true, Bool.false_eq_true, ↓reduceIte] at hremove
  obtain ⟨htop, hlisted, hloose⟩ := hrebuilt.not_below_loose
  obtain ⟨kids, hdir⟩ := hkept.top
  refine ⟨hrebuilt.recursRemove (.refl _) hremove, fun k hmem => ?_, ?_⟩
  · obtain ⟨e', he'⟩ := hdirs k (List.mem_cons_of_mem kid hmem)
    exact ⟨e', (recursRemove_kept hremove k (hloose k hmem)).trans he'⟩
  · refine hkept.step ((recursRemove_kept hremove indx htop).trans hdir) fun j _ hmem _ => ?_
    exact recursRemove_kept hremove j (hlisted j ⟨_, hdir, .inr hmem⟩)

/-- The subdirectories of the directory have different hashes. -/
def DistinctHashes (s : Storage) (indx : Nat) : Prop :=
  ∀ d, s.node indx = some (.dir d) →
    d.subdirs.Pairwise fun a b => (s.getDir a).map (·.dirHash) ≠ (s.getDir b).map (·.dirHash)

/-- The files of the directory have different names. -/
def DistinctNames (s : Storage) (indx : Nat) : Prop :=
  ∀ d, s.node indx = some (.dir d) →
    d.subfiles.Pairwise fun a b => (s.getFile a).map (·.fileName) ≠ (s.getFile b).map (·.fileName)

theorem Rebuilt.clearSubdirs {d : DirEntry} {existing : OrderedMap FileHash Nat}
    (hrebuilt : Rebuilt lax indx [] room s) (hnode : s.node indx = some (.dir d))
    (hdistinct : s.DistinctHashes indx ∨ lax)
    (hexisting : existingKids (fun kid => (s.getDir kid).map (·.dirHash)) d.subdirs =
      some existing) :
    Rebuilt lax indx (values existing) room (s.setNode indx (some (.dir { d with subdirs := [] }))) ∧
      (∀ kid ∈ values existing,
        ∃ e, (s.setNode indx (some (.dir { d with subdirs := [] }))).node kid = some (.dir e)) ∧
      FilesKept indx d s (s.setNode indx (some (.dir { d with subdirs := [] }))) := by
  have hsubperm : (values existing).Subperm d.subdirs := existingKids_subperm hexisting
  have hperm : (values existing).Perm d.subdirs ∨ lax :=
    hdistinct.imp_left fun hapart => existingKids_perm (hapart d hnode) hexisting
  have hself := node_setNode_self (some (.dir { d with subdirs := [] })) (lt_length_of_node hnode)
  refine ⟨?_, fun kid hmem => ?_, ⟨[], hself⟩, fun j hmem => ?_⟩
  · refine hrebuilt.relist hnode ?_ (hperm.imp_left fun hperm => ?_)
      (fun _ hmem => absurd hmem List.not_mem_nil) (fun kid hmem => hrebuilt.subfiles_file hnode hmem)
      rfl
    all_goals rw [List.nil_append, List.append_nil]
    · exact List.perm_append_comm.subperm.trans ((List.subperm_append_right d.subfiles).mpr hsubperm)
    · exact List.perm_append_comm.trans (hperm.append_right d.subfiles)
  · by_cases hkid : kid = indx
    · rw [hkid]
      exact ⟨_, hself⟩
    · obtain ⟨e, he⟩ := hrebuilt.subdirs_dir hnode (hsubperm.subset hmem)
      exact ⟨e, (node_setNode_ne _ hkid).trans he⟩
  · obtain ⟨fe, hfile⟩ := hrebuilt.subfiles_file hnode hmem
    have hj : j ≠ indx := by
      rintro rfl
      cases hnode.symm.trans hfile
    exact ⟨fe, hfile, (node_setNode_ne _ hj).trans hfile⟩

theorem Rebuilt.placeSubdirs {d : DirEntry} {dirName : Name} {hashes : List FileHash} {s₀ : Storage}
    {existing existing' : OrderedMap FileHash Nat}
    (hrebuilt : Rebuilt lax indx (values existing) (hashes.length + room) s)
    (hdirs : ∀ kid ∈ values existing, ∃ e, s.node kid = some (.dir e))
    (hkept : FilesKept indx d s₀ s)
    (hplaced : hashes.foldlM (Storage.placeSubdir indx dirName) (s, existing) =
      some (t, existing')) :
    Rebuilt lax indx (values existing') room t ∧
      (∀ kid ∈ values existing', ∃ e, t.node kid = some (.dir e)) ∧ FilesKept indx d s₀ t := by
  have hend := Transition.foldlM_keeps
    (fun (rest : List FileHash) (acc : Storage × OrderedMap FileHash Nat) =>
      Rebuilt lax indx (values acc.2) (rest.length + room) acc.1 ∧
        (∀ kid ∈ values acc.2, ∃ e, acc.1.node kid = some (.dir e)) ∧ FilesKept indx d s₀ acc.1)
    (fun hash rest before after ⟨hbefore, hdirs, hkept⟩ hpass => by
      rw [List.length_cons, Nat.add_right_comm] at hbefore
      exact hbefore.placeSubdir hdirs hkept hpass)
    hashes (s, existing) (t, existing') ⟨hrebuilt, hdirs, hkept⟩ hplaced
  rwa [List.length_nil, Nat.zero_add] at hend

theorem updateSubdirsOf_cases {d : DirEntry} {dirName : Name} {hashes : List FileHash}
    (hnode : s.node indx = some (.dir d)) (hupdate : s.updateSubdirsOf indx dirName hashes = some t) :
    ∃ existing v existing',
      existingKids (fun kid => (s.getDir kid).map (·.dirHash)) d.subdirs = some existing ∧
      hashes.foldlM (Storage.placeSubdir indx dirName)
        (s.setNode indx (some (.dir { d with subdirs := [] })), existing) = some (v, existing') ∧
      (values existing').foldlM Storage.removeSubdir v = some t := by
  obtain ⟨d', hget, hupdate⟩ := Option.bind_eq_some_iff.mp hupdate
  obtain ⟨existing, hexisting, hupdate⟩ := Option.bind_eq_some_iff.mp hupdate
  obtain ⟨u, hclear, hupdate⟩ := Option.bind_eq_some_iff.mp hupdate
  obtain ⟨⟨v, existing'⟩, hplaced, hremoved⟩ := Option.bind_eq_some_iff.mp hupdate
  cases hnode.symm.trans (getDir_eq_some.mp hget)
  obtain ⟨d', hnode', rfl⟩ := modifyDir_eq_some hclear
  cases hnode.symm.trans hnode'
  exact ⟨existing, v, existing', hexisting, hplaced, hremoved⟩

theorem Rebuilt.updateSubdirsOf {d : DirEntry} {dirName : Name} {hashes : List FileHash}
    (hrebuilt : Rebuilt lax indx [] (hashes.length + room) s) (hnode : s.node indx = some (.dir d))
    (hdistinct : s.DistinctHashes indx ∨ lax)
    (hupdate : s.updateSubdirsOf indx dirName hashes = some t) :
    Rebuilt lax indx [] room t ∧ FilesKept indx d s t := by
  obtain ⟨existing, v, existing', hexisting, hplaced, hremoved⟩ := updateSubdirsOf_cases hnode hupdate
  obtain ⟨hcleared, hdirs, hkept⟩ := hrebuilt.clearSubdirs hnode hdistinct hexisting
  have hend := Transition.foldlM_keeps
    (fun rest u => Rebuilt lax indx rest room u ∧ (∀ k ∈ rest, ∃ e, u.node k = some (.dir e)) ∧
      FilesKept indx d s u)
    (fun kid rest before after ⟨hbefore, hdirs, hkept⟩ hpass =>
      hbefore.removeSubdir hdirs hkept hpass) (values existing') v t
    (hcleared.placeSubdirs hdirs hkept hplaced) hremoved
  exact ⟨hend.1, hend.2.2⟩

/-! ### Files -/

theorem Rebuilt.subfileSlot {d : DirEntry} {fe : FileEntry} {i : Nat}
    {existing existing' : OrderedMap Name Nat}
    (hrebuilt : Rebuilt lax indx (values existing) (room + 1) s) (htop : s.node indx = some (.dir d))
    (hfiles : ∀ kid ∈ values existing, s.links kid = some .leaf)
    (hslot : s.subfileSlot existing fe = some (i, t, existing')) :
    Rebuilt lax indx (i :: values existing') room t ∧
      (∀ kid ∈ i :: values existing', t.links kid = some .leaf) ∧
      t.node indx = some (.dir d) := by
  unfold Storage.subfileSlot at hslot
  split at hslot
  · rename_i kid hfound
    obtain ⟨hfound, -⟩ := Option.filter_eq_some_iff.mp hfound
    obtain ⟨⟨result, u⟩, hupdate, hslot⟩ := Option.bind_eq_some_iff.mp hslot
    cases hslot
    have hperm := values_perm_cons_erase hfound
    have hloose := (hrebuilt.mono (Nat.le_succ room)).perm hperm
    obtain rfl | ⟨fe', hnode, hnodes, -⟩ := updateFile_cases hupdate
    · exact ⟨hloose, fun kid hmem => hfiles kid (hperm.symm.subset hmem), htop⟩
    · refine ⟨hloose.updateFile hupdate, fun kid hmem => ?_, ?_⟩
      · rw [links_of_set hnode hnodes rfl]
        exact hfiles kid (hperm.symm.subset hmem)
      · rw [node_of_set (lt_length_of_node hnode) hnodes, if_neg, htop]
        rintro rfl
        cases htop.symm.trans hnode
  · obtain ⟨⟨k, u⟩, halloc, hslot⟩ := Option.bind_eq_some_iff.mp hslot
    have hnew : k = i ∧ existing = existing' ∧ t.mNodes = u.mNodes.set i
        (some (.file (.new fe.fileName fe.fileSize fe.fileModtime fe.fileHash))) := by
      cases hslot
      exact ⟨rfl, rfl, rfl⟩
    obtain ⟨rfl, rfl, hnodes⟩ := hnew
    obtain ⟨hplaced, hself, hfree, hother⟩ := hrebuilt.allocate (by simp [htop]) halloc (.inl rfl)
      (fun hne => absurd rfl hne) hnodes
    have hkept : ∀ j, s.node j ≠ none → t.node j = s.node j := fun j hj =>
      hother j fun heq => hj (heq ▸ hfree)
    refine ⟨hplaced, fun kid hmem => ?_, (hkept indx (by simp [htop])).trans htop⟩
    obtain rfl | hmem := List.mem_cons.mp hmem
    · exact links_eq_leaf.mpr ⟨_, hself⟩
    · obtain ⟨fe', hfe'⟩ := links_eq_leaf.mp (hfiles kid hmem)
      exact links_eq_leaf.mpr ⟨fe', (hkept kid (by simp [hfe'])).trans hfe'⟩

theorem Rebuilt.placeSubfile {d : DirEntry} {fe : FileEntry} {existing existing' : OrderedMap Name Nat}
    (hrebuilt : Rebuilt lax indx (values existing) (room + 1) s) (htop : s.node indx = some (.dir d))
    (hfiles : ∀ kid ∈ values existing, s.links kid = some .leaf)
    (hplace : Storage.placeSubfile indx (s, existing) fe = some (t, existing')) :
    Rebuilt lax indx (values existing') room t ∧ (∃ d, t.node indx = some (.dir d)) ∧
      ∀ kid ∈ values existing', t.links kid = some .leaf := by
  obtain ⟨⟨i, u, existing''⟩, hslot, hplace⟩ := Option.bind_eq_some_iff.mp hplace
  obtain ⟨v, hmodify, hplace⟩ := Option.bind_eq_some_iff.mp hplace
  cases hplace
  obtain ⟨hu, hfiles', htop'⟩ := hrebuilt.subfileSlot htop hfiles hslot
  obtain ⟨d', hnode, rfl⟩ := modifyDir_eq_some hmodify
  cases htop'.symm.trans hnode
  have hlt := lt_length_of_node hnode
  obtain ⟨fe', hfe'⟩ := links_eq_leaf.mp (hfiles' i List.mem_cons_self)
  refine ⟨hu.appendSubfile hnode hfe' (.refl _), ⟨_, node_setNode_self _ hlt⟩, fun kid hmem => ?_⟩
  have hleaf := hfiles' kid (List.mem_cons_of_mem i hmem)
  have hkid : kid ≠ indx := by
    rintro rfl
    obtain ⟨fe'', hfile⟩ := links_eq_leaf.mp hleaf
    cases hnode.symm.trans hfile
  rw [links_setNode _ hlt, Function.update_of_ne hkid]
  exact hleaf

theorem Rebuilt.removeSubfile {d : DirEntry} {kid : Nat} {rest : List Nat}
    (hrebuilt : Rebuilt lax indx (kid :: rest) room s) (htop : s.node indx = some (.dir d))
    (hfiles : ∀ k ∈ kid :: rest, s.links k = some .leaf) (hremove : s.removeSubfile kid = some t) :
    Rebuilt lax indx rest room t ∧ (∃ d, t.node indx = some (.dir d)) ∧
      ∀ k ∈ rest, t.links k = some .leaf := by
  obtain ⟨fe, hfile⟩ := links_eq_leaf.mp (hfiles kid List.mem_cons_self)
  have hcheck : s.checkIndex kid .file = true := by
    simp [checkIndex, hfile, Node.type, hrebuilt.ne_noIndex hfile]
  simp only [Storage.removeSubfile, hcheck, Bool.not_true, Bool.false_eq_true, ↓reduceIte] at hremove
  refine ⟨hrebuilt.deleteFileNode (.refl _) hfile hremove, ⟨d, ?_⟩, fun k hmem => ?_⟩
  · rw [deleteFileNode_kept hremove, htop]
    rintro rfl
    cases htop.symm.trans hfile
  · have hne : k ≠ kid := by
      rintro rfl
      exact (List.nodup_cons.mp hrebuilt.forest.loose_nodup).1 hmem
    rw [links, deleteFileNode_kept hremove hne]
    exact hfiles k (List.mem_cons_of_mem kid hmem)

theorem Rebuilt.updateSubfilesOf {d : DirEntry} {files : List FileEntry}
    (hrebuilt : Rebuilt lax indx [] (files.length + room) s) (hnode : s.node indx = some (.dir d))
    (hdistinct : s.DistinctNames indx ∨ lax) (hupdate : s.updateSubfilesOf indx files = some t) :
    Rebuilt lax indx [] room t := by
  obtain ⟨d', hget, hupdate⟩ := Option.bind_eq_some_iff.mp hupdate
  obtain ⟨existing, hexisting, hupdate⟩ := Option.bind_eq_some_iff.mp hupdate
  obtain ⟨u, hclear, hupdate⟩ := Option.bind_eq_some_iff.mp hupdate
  obtain ⟨⟨v, existing'⟩, hplaced, hremoved⟩ := Option.bind_eq_some_iff.mp hupdate
  cases hnode.symm.trans (getDir_eq_some.mp hget)
  obtain ⟨d', hnode', rfl⟩ := modifyDir_eq_some hclear
  cases hnode.symm.trans hnode'
  have hsubperm : (values existing).Subperm d.subfiles := existingKids_subperm hexisting
  have hperm : (values existing).Perm d.subfiles ∨ lax :=
    hdistinct.imp_left fun hapart => existingKids_perm (hapart d hnode) hexisting
  have hlt := lt_length_of_node hnode
  have hfiles : ∀ kid ∈ values existing, s.links kid = some .leaf := fun kid hmem =>
    links_eq_leaf.mpr (hrebuilt.subfiles_file hnode (hsubperm.subset hmem))
  have hcleared : Rebuilt lax indx (values existing) (files.length + room)
      (s.setNode indx (some (.dir { d with subfiles := [] }))) := by
    refine hrebuilt.relist hnode ?_ (hperm.imp_left fun hperm => ?_)
      (fun kid hmem => hrebuilt.subdirs_dir hnode hmem) (fun _ hmem => absurd hmem List.not_mem_nil)
      rfl
    all_goals rw [List.append_nil, List.append_nil]
    · exact (List.subperm_append_left d.subdirs).mpr hsubperm
    · exact hperm.append_left d.subdirs
  have hfiles' : ∀ kid ∈ values existing,
      (s.setNode indx (some (.dir { d with subfiles := [] }))).links kid = some .leaf := by
    intro kid hmem
    have hkid : kid ≠ indx := by
      rintro rfl
      obtain ⟨fe, hfile⟩ := links_eq_leaf.mp (hfiles kid hmem)
      cases hnode.symm.trans hfile
    rw [links_setNode _ hlt, Function.update_of_ne hkid]
    exact hfiles kid hmem
  have hv := Transition.foldlM_keeps
    (fun (rest : List FileEntry) (acc : Storage × OrderedMap Name Nat) =>
      Rebuilt lax indx (values acc.2) (rest.length + room) acc.1 ∧
        (∃ d, acc.1.node indx = some (.dir d)) ∧
        ∀ kid ∈ values acc.2, acc.1.links kid = some .leaf)
    (fun fe rest before after ⟨hbefore, ⟨d, htop⟩, hfiles⟩ hpass => by
      rw [List.length_cons, Nat.add_right_comm] at hbefore
      exact hbefore.placeSubfile htop hfiles hpass)
    files _ (v, existing') ⟨hcleared, ⟨_, node_setNode_self _ hlt⟩, hfiles'⟩ hplaced
  rw [List.length_nil, Nat.zero_add] at hv
  have hend := Transition.foldlM_keeps
    (fun rest u => Rebuilt lax indx rest room u ∧ (∃ d, u.node indx = some (.dir d)) ∧
      ∀ k ∈ rest, u.links k = some .leaf)
    (fun kid rest before after ⟨hbefore, ⟨d, htop⟩, hfiles⟩ hpass =>
      hbefore.removeSubfile htop hfiles hpass) (values existing') v t hv hremoved
  exact hend.1

/-! ### Parents -/

def parentOf (s : Storage) (i : Nat) : Option Nat := (s.node i).map Node.parentIndex

/-- Of the children, those that are not in `rest` have got their parent index. -/
structure Adopted (indx : Nat) (kids rest : List Nat) (s t : Storage) : Prop where
  links_eq : t.links = s.links
  length_eq : t.mNodes.length = s.mNodes.length
  parent_of : ∀ j, t.parentOf j = s.parentOf j ∨ j ∈ kids ∧ t.parentOf j = some indx
  done : ∀ kid ∈ kids, kid ∈ rest ∨ t.parentOf kid = some indx

theorem Adopted.adopt {kid : Nat} {kids rest : List Nat} {n n' : Node}
    (hadopted : Adopted indx kids (kid :: rest) s t) (hkid : kid ∈ kids)
    (hnode : t.node kid = some n) (hentry : n'.entry = n.entry) (hparent : n'.parentIndex = indx) :
    Adopted indx kids rest s (t.setNode kid (some n')) := by
  have hset := node_of_set (t := t.setNode kid (some n')) (lt_length_of_node hnode) rfl
  have hself : (t.setNode kid (some n')).parentOf kid = some indx := by
    rw [parentOf, hset, if_pos rfl, Option.map_some, hparent]
  have hother : ∀ j, j ≠ kid → (t.setNode kid (some n')).parentOf j = t.parentOf j := by
    intro j hj
    rw [parentOf, parentOf, hset, if_neg hj]
  constructor
  case links_eq => exact (links_of_set hnode rfl hentry).trans hadopted.links_eq
  case length_eq => exact (length_setNode _).trans hadopted.length_eq
  case parent_of =>
    intro j
    by_cases hj : j = kid
    · rw [hj]
      exact .inr ⟨hkid, hself⟩
    · rw [hother j hj]
      exact hadopted.parent_of j
  case done =>
    intro j hmem
    by_cases hj : j = kid
    · rw [hj]
      exact .inr hself
    · rw [hother j hj]
      exact (hadopted.done j hmem).imp_left fun hrest => (List.mem_cons.mp hrest).resolve_left hj

theorem Rebuilt.adoptKids (hrebuilt : Rebuilt lax indx [] room s) (hadopt : s.adoptKids indx = some t) :
    Linked lax everywhere indx [] room t := by
  obtain ⟨d, hget, hadopt⟩ := Option.bind_eq_some_iff.mp hadopt
  obtain ⟨⟨u, n⟩, hdirs, hadopt⟩ := Option.bind_eq_some_iff.mp hadopt
  obtain ⟨⟨v, m⟩, hfiles, hadopt⟩ := Option.bind_eq_some_iff.mp hadopt
  cases hadopt
  have hnode := getDir_eq_some.mp hget
  have hu := Transition.foldlM_keeps
    (fun rest (acc : Storage × Nat) => rest ⊆ d.subdirs ∧
      Adopted indx (d.subdirs ++ d.subfiles) (rest ++ d.subfiles) s acc.1)
    (fun kid rest before after ⟨hsubset, hadopted⟩ hpass => by
      obtain ⟨w, hmodify, rfl⟩ := Option.map_eq_some_iff.mp hpass
      obtain ⟨e, he, rfl⟩ := modifyDir_eq_some hmodify
      exact ⟨fun k hmem => hsubset (List.mem_cons_of_mem kid hmem),
        hadopted.adopt (List.mem_append_left _ (hsubset List.mem_cons_self)) he rfl rfl⟩)
    d.subdirs (s, 0) (u, n) ⟨List.Subset.refl _, rfl, rfl, fun _ => .inl rfl,
      fun _ hmem => .inl hmem⟩ hdirs
  have hv := Transition.foldlM_keeps
    (fun rest (acc : Storage × Nat) => rest ⊆ d.subfiles ∧
      Adopted indx (d.subdirs ++ d.subfiles) rest s acc.1)
    (fun kid rest before after ⟨hsubset, hadopted⟩ hpass => by
      have hkid : kid ∈ d.subdirs ++ d.subfiles :=
        List.mem_append_right _ (hsubset List.mem_cons_self)
      refine ⟨fun k hmem => hsubset (List.mem_cons_of_mem kid hmem), ?_⟩
      unfold adoptSubfile at hpass
      split at hpass
      · cases hpass
      · rename_i fe hfile
        cases hpass
        exact hadopted.adopt hkid hfile rfl rfl
      · rename_i de hdir
        cases hpass
        exact hadopted.adopt hkid hdir rfl rfl)
    d.subfiles (u, n) (t, m) ⟨List.Subset.refl _, hu.2⟩ hfiles
  obtain ⟨-, hadopted⟩ := hv
  constructor
  case forest =>
    rw [hadopted.links_eq]
    exact hrebuilt.forest
  case parent_eq =>
    intro i kid n _ hlists hkid
    rw [lists_iff, hadopted.links_eq, ← lists_iff] at hlists
    have hparent : t.parentOf kid = some n.parentIndex := by rw [parentOf, hkid, Option.map_some]
    by_cases hi : i = indx
    · subst hi
      obtain ⟨d', hdir, hmem⟩ := hlists
      cases hnode.symm.trans hdir
      have hdone := (hadopted.done kid (List.mem_append.mpr hmem)).resolve_left List.not_mem_nil
      exact Option.some.inj (hparent.symm.trans hdone)
    · obtain hsame | ⟨hmem, -⟩ := hadopted.parent_of kid
      · obtain ⟨n', hkid', heq⟩ := Option.map_eq_some_iff.mp (hsame.symm.trans hparent)
        exact heq.symm.trans (hrebuilt.parent_eq i kid n' hi hlists hkid')
      · have hindx : s.Lists indx kid := ⟨d, hnode, List.mem_append.mp hmem⟩
        exact absurd (hrebuilt.forest.lister_eq i indx kid (lists_iff.mp hlists)
          (lists_iff.mp hindx)) hi
  case loose_parent => exact fun _ _ hmem => absurd hmem List.not_mem_nil
  case length_le =>
    rw [hadopted.length_eq]
    exact hrebuilt.length_le

/-! ### The whole update -/

theorem FilesKept.distinctNames {d : DirEntry} (hkept : FilesKept indx d s t)
    (hnode : s.node indx = some (.dir d)) (hnames : s.DistinctNames indx) :
    t.DistinctNames indx := by
  intro d' hd'
  obtain ⟨kids, htop⟩ := hkept.top
  cases htop.symm.trans hd'
  have hsame : ∀ k ∈ d.subfiles, t.getFile k = s.getFile k := by
    intro k hmem
    obtain ⟨fe, hbefore, hafter⟩ := hkept.files k hmem
    rw [getFile_eq_some.mpr hafter, getFile_eq_some.mpr hbefore]
  refine (hnames d hnode).imp_of_mem fun {a b} ha hb hne heq => hne ?_
  rwa [hsame a ha, hsame b hb] at heq

theorem links_modifyDir {f : DirEntry → DirEntry} (hmodify : s.modifyDir indx f = some t)
    (hlists : ∀ d, (f d).subdirs = d.subdirs ∧ (f d).subfiles = d.subfiles) : t.links = s.links := by
  obtain ⟨d, hnode, rfl⟩ := modifyDir_eq_some hmodify
  obtain ⟨hsubdirs, hsubfiles⟩ := hlists d
  exact links_of_set hnode rfl (by rw [Node.entry, Node.entry, hsubdirs, hsubfiles])

/-- The name and the times of a directory do not matter for the tree. -/
theorem Linked.retitle {f : DirEntry → DirEntry} (hlinked : Linked lax everywhere 0 [] room s)
    (hmodify : s.modifyDir indx f = some t)
    (hlists : ∀ d, (f d).subdirs = d.subdirs ∧ (f d).subfiles = d.subfiles)
    (hparent : ∀ d, (f d).parentIndex = d.parentIndex) (hhash : ∀ d, (f d).dirHash = d.dirHash) :
    Linked lax everywhere 0 [] room t ∧ (s.DistinctHashes indx → t.DistinctHashes indx) ∧
      (s.DistinctNames indx → t.DistinctNames indx) ∧ ∃ d, t.node indx = some (.dir d) := by
  have hlinks := links_modifyDir hmodify hlists
  obtain ⟨d, hnode, rfl⟩ := modifyDir_eq_some hmodify
  obtain ⟨hsubdirs, hsubfiles⟩ := hlists d
  have hset := node_of_set (t := s.setNode indx (some (.dir (f d)))) (lt_length_of_node hnode) rfl
  have hself : (s.setNode indx (some (.dir (f d)))).node indx = some (.dir (f d)) :=
    (hset indx).trans (if_pos rfl)
  refine ⟨hlinked.relabel (length_setNode _) hlinks fun j => ?_, fun hhashes d' hd' => ?_,
    fun hnames d' hd' => ?_, f d, hself⟩
  · rw [hset]
    split
    · rename_i hj
      rw [hj, hnode]
      exact congrArg some (hparent d)
    · rfl
  · cases hself.symm.trans hd'
    have hsame : ∀ k, ((s.setNode indx (some (.dir (f d)))).getDir k).map (·.dirHash) =
        (s.getDir k).map (·.dirHash) := by
      intro k
      by_cases hk : k = indx
      · rw [hk, getDir_eq_some.mpr hnode, getDir_eq_some.mpr hself]
        exact congrArg some (hhash d)
      · rw [getDir, getDir, hset k, if_neg hk]
    rw [hsubdirs]
    refine (hhashes d hnode).imp fun {a b} hne heq => hne ?_
    rwa [hsame a, hsame b] at heq
  · cases hself.symm.trans hd'
    have hsame : ∀ k, (s.setNode indx (some (.dir (f d)))).getFile k = s.getFile k := by
      intro k
      by_cases hk : k = indx
      · rw [hk, getFile, getFile, hnode, hself]
      · rw [getFile, getFile, hset k, if_neg hk]
    rw [hsubfiles]
    refine (hnames d hnode).imp fun {a b} hne heq => hne ?_
    rwa [hsame a, hsame b] at heq

theorem Linked.updateDirEntry {dirName : Name} {mostRecentTime dirModtime now : Int}
    {subdirsHash : List FileHash} {subfilesArray : List FileEntry} {result : Bool}
    (hlinked : Linked lax everywhere 0 [] (subdirsHash.length + subfilesArray.length) s)
    (hdistinct : s.checkIndex indx .dir = true → s.DistinctHashes indx ∧ s.DistinctNames indx ∨ lax)
    (hupdate : s.updateDirEntry indx dirName mostRecentTime dirModtime subdirsHash subfilesArray now =
      some (result, t)) : Linked lax everywhere 0 [] 0 t := by
  unfold Storage.updateDirEntry at hupdate
  split at hupdate
  · cases hupdate
    exact hlinked.mono (Nat.zero_le _)
  · rename_i hvalid
    have hapart := hdistinct (by simpa using hvalid)
    obtain ⟨u, hmodify, hupdate⟩ := Option.bind_eq_some_iff.mp hupdate
    obtain ⟨v, hdirs, hupdate⟩ := Option.bind_eq_some_iff.mp hupdate
    obtain ⟨w, hfiles, hupdate⟩ := Option.bind_eq_some_iff.mp hupdate
    obtain ⟨x, hadopt, hupdate⟩ := Option.bind_eq_some_iff.mp hupdate
    cases hupdate
    obtain ⟨hu, hhashes', hnames', d, htop⟩ :=
      hlinked.retitle hmodify (fun _ => ⟨rfl, rfl⟩) (fun _ => rfl) fun _ => rfl
    have hrebuilt : Rebuilt lax indx [] (subdirsHash.length + (subfilesArray.length + 0)) u :=
      hu.settled (fun _ _ => trivial) le_rfl indx
    obtain ⟨hv, hkept⟩ := hrebuilt.updateSubdirsOf htop
      (hapart.imp_left fun hapart => hhashes' hapart.1) hdirs
    obtain ⟨kids, htop'⟩ := hkept.top
    have hw := hv.updateSubfilesOf htop'
      (hapart.imp_left fun hapart => hkept.distinctNames htop (hnames' hapart.2)) hfiles
    exact (hw.adoptKids hadopt).settled (fun _ h => h) le_rfl 0

end RetroShare.FileSharing.Storage
