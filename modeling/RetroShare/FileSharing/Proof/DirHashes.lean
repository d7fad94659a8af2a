import RetroShare.FileSharing.Proof.TreeRuns

/-!
# Directories by their hash

What the operations do to the hashes of the directories and to the map from hashes to indices. Files
play no part in it; a removal erases the entries of the directories that it takes away.
-/

namespace RetroShare.FileSharing.Storage

variable {s t u : Storage} {i k : Nat}

def dirHashAt (s : Storage) (i : Nat) : Option FileHash := (s.getDir i).map (·.dirHash)

/-- The hash of every directory leads to a directory of that hash. -/
def Indexed (s : Storage) : Prop :=
  ∀ i hash, s.dirHashAt i = some hash →
    ∃ j, s.mDirHashes[hash]? = some j ∧ s.dirHashAt j = some hash

/-- No other directory has the hash of this one. -/
def Sole (s : Storage) (i : Nat) : Prop :=
  ∀ j hash, s.dirHashAt i = some hash → s.dirHashAt j = some hash → j = i

/-- No two directories have the same hash. -/
def OneHashEach (s : Storage) : Prop := ∀ i, s.Sole i

/-! ### Hashes of single nodes -/

theorem dirHashAt_eq_some {hash : FileHash} :
    s.dirHashAt i = some hash ↔ ∃ d, s.node i = some (.dir d) ∧ d.dirHash = hash := by
  unfold dirHashAt
  constructor
  · intro hsome
    obtain ⟨d, hget, heq⟩ := Option.map_eq_some_iff.mp hsome
    exact ⟨d, getDir_eq_some.mp hget, heq⟩
  · rintro ⟨d, hnode, rfl⟩
    rw [getDir_eq_some.mpr hnode, Option.map_some]

theorem dirHashAt_congr (hnode : t.node i = s.node i) : t.dirHashAt i = s.dirHashAt i := by
  rw [dirHashAt, dirHashAt, getDir, getDir, hnode]

theorem dirHashAt_of_file {fe : FileEntry} (hnode : s.node i = some (.file fe)) :
    s.dirHashAt i = none := by
  rw [dirHashAt, getDir, hnode, Option.map_none]

theorem dirHashAt_of_none (hnode : s.node i = none) : s.dirHashAt i = none := by
  rw [dirHashAt, getDir, hnode, Option.map_none]

theorem dirHashAt_of_dir {d : DirEntry} (hnode : s.node i = some (.dir d)) :
    s.dirHashAt i = some d.dirHash := dirHashAt_eq_some.mpr ⟨d, hnode, rfl⟩

/-! ### Operations that leave the hashes alone -/

structure SameHashes (s t : Storage) : Prop where
  hash_eq : ∀ i, t.dirHashAt i = s.dirHashAt i
  map_eq : t.mDirHashes = s.mDirHashes

theorem SameHashes.refl (s : Storage) : SameHashes s s := ⟨fun _ => rfl, rfl⟩

theorem SameHashes.trans (hfirst : SameHashes s t) (hsecond : SameHashes t u) : SameHashes s u where
  hash_eq i := (hsecond.hash_eq i).trans (hfirst.hash_eq i)
  map_eq := hsecond.map_eq.trans hfirst.map_eq

theorem SameHashes.of_nodes (hnodes : t.mNodes = s.mNodes) (hmap : t.mDirHashes = s.mDirHashes) :
    SameHashes s t := ⟨fun i => dirHashAt_congr (node_congr hnodes i), hmap⟩

/-- Another node without a hash, or a directory of the same hash. -/
theorem SameHashes.set {n : Node} (hlt : i < s.mNodes.length)
    (hnodes : t.mNodes = s.mNodes.set i (some n)) (hmap : t.mDirHashes = s.mDirHashes)
    (hhash : ∀ hash, (∃ d, n = .dir d ∧ d.dirHash = hash) ↔ s.dirHashAt i = some hash) :
    SameHashes s t where
  hash_eq j := by
    have hset := node_of_set hlt hnodes
    by_cases hj : j = i
    · subst hj
      ext hash
      rw [← hhash, dirHashAt_eq_some, hset, if_pos rfl]
      simp
    · exact dirHashAt_congr ((hset j).trans (if_neg hj))
  map_eq := hmap

theorem SameHashes.modifyDir {f : DirEntry → DirEntry} (hmodify : s.modifyDir i f = some t)
    (hhash : ∀ d, (f d).dirHash = d.dirHash) : SameHashes s t := by
  obtain ⟨d, hnode, rfl⟩ := modifyDir_eq_some hmodify
  refine .set (lt_length_of_node hnode) rfl rfl fun hash => ?_
  rw [dirHashAt_of_dir hnode, Option.some_inj, ← hhash d]
  simp

theorem SameHashes.setFile {fe : FileEntry} (hlt : i < s.mNodes.length)
    (hnodes : t.mNodes = s.mNodes.set i (some (.file fe))) (hmap : t.mDirHashes = s.mDirHashes)
    (hhash : s.dirHashAt i = none) : SameHashes s t := by
  refine .set hlt hnodes hmap fun hash => ?_
  simp [hhash]

theorem SameHashes.foldlM {Elem : Type} {pass : Storage → Elem → Option Storage}
    (hpass : ∀ s elem t, pass s elem = some t → SameHashes s t) {elems : List Elem}
    (hloop : elems.foldlM pass s = some t) : SameHashes s t :=
  Transition.foldlM_keeps (fun _ u => SameHashes s u)
    (fun elem _ before after hbefore hstep => hbefore.trans (hpass before elem after hstep)) elems s t
    (.refl s) hloop

theorem SameHashes.deleteFileNode (hdelete : s.deleteFileNode i = some t) : SameHashes s t := by
  obtain ⟨-, rfl⟩ | ⟨fe, hnode, rfl⟩ := deleteFileNode_cases hdelete
  · exact .refl _
  · refine ⟨fun j => ?_, rfl⟩
    have hgone := node_setNode_none (s := s) (i := i) j
    by_cases hj : j = i
    · rw [if_pos hj] at hgone
      rw [hj, dirHashAt_of_file hnode]
      exact dirHashAt_of_none (hj ▸ hgone)
    · exact dirHashAt_congr (hgone.trans (if_neg hj))

theorem SameHashes.updateFile {hash : FileHash} {fname : Name} {size : Nat} {modfTime : Int}
    {result : Bool} (hupdate : s.updateFile i hash fname size modfTime = some (result, t)) :
    SameHashes s t := by
  obtain rfl | ⟨fe, hnode, hnodes, -, -, -, hmap, -⟩ := updateFile_cases hupdate
  · exact .refl _
  · exact .setFile (lt_length_of_node hnode) hnodes hmap (dirHashAt_of_file hnode)

theorem SameHashes.updateHash {hash : FileHash} {result : Bool}
    (hupdate : s.updateHash i hash = some (result, t)) : SameHashes s t := by
  unfold Storage.updateHash at hupdate
  split at hupdate
  · cases hupdate
    exact .refl _
  · obtain ⟨u, hmodify, hupdate⟩ := Option.bind_eq_some_iff.mp hupdate
    cases hupdate
    obtain ⟨fe, hnode, rfl⟩ := modifyFile_eq_some hmodify
    exact .setFile (lt_length_of_node hnode) rfl rfl (dirHashAt_of_file hnode)

theorem SameHashes.refreshSubfile {ts : FileTS} (hrefresh : s.refreshSubfile i ts = some t) :
    SameHashes s t := by
  obtain ⟨fe, hnode, rfl | rfl⟩ := refreshSubfile_cases hrefresh
  · exact .refl _
  · exact .setFile (lt_length_of_node hnode) rfl rfl (dirHashAt_of_file hnode)

/-- A node behind the end that is a file or nothing. -/
theorem SameHashes.push {n : Option Node} (hnodes : t.mNodes = s.mNodes ++ [n])
    (hmap : t.mDirHashes = s.mDirHashes) (hdir : ∀ d, n ≠ some (.dir d)) : SameHashes s t where
  hash_eq j := by
    have hpush : ∀ j, t.node j = (s.pushNode n).node j := node_congr hnodes
    by_cases hj : j = s.mNodes.length
    · subst hj
      rw [dirHashAt_of_none (node_of_length_le le_rfl), Option.eq_none_iff_forall_ne_some]
      intro hash hsome
      obtain ⟨d, hnode, -⟩ := dirHashAt_eq_some.mp hsome
      exact hdir d (((node_pushNode_self n).symm.trans (hpush _).symm).trans hnode)
    · exact dirHashAt_congr ((hpush j).trans (node_pushNode_ne n hj))
  map_eq := hmap

theorem SameHashes.subfileSlot {fe : FileEntry} {existing existing' : OrderedMap Name Nat}
    (hslot : s.subfileSlot existing fe = some (i, t, existing')) : SameHashes s t := by
  unfold Storage.subfileSlot at hslot
  split at hslot
  · obtain ⟨⟨result, u⟩, hupdate, hslot⟩ := Option.bind_eq_some_iff.mp hslot
    cases hslot
    exact .updateFile hupdate
  · obtain ⟨⟨k, u⟩, halloc, hslot⟩ := Option.bind_eq_some_iff.mp hslot
    cases hslot
    obtain ⟨hlt, hfree, hnode, -, hmap⟩ := allocateNewIndex_spec halloc
    have hsame : SameHashes s u := ⟨fun j => dirHashAt_congr (hnode j), hmap⟩
    refine hsame.trans (.setFile hlt rfl rfl ?_)
    exact dirHashAt_of_none ((hnode i).trans hfree)

theorem SameHashes.updateSubfilesOf {files : List FileEntry}
    (hupdate : s.updateSubfilesOf i files = some t) : SameHashes s t := by
  obtain ⟨d, -, hupdate⟩ := Option.bind_eq_some_iff.mp hupdate
  obtain ⟨existing, -, hupdate⟩ := Option.bind_eq_some_iff.mp hupdate
  obtain ⟨u, hclear, hupdate⟩ := Option.bind_eq_some_iff.mp hupdate
  obtain ⟨⟨v, existing'⟩, hplaced, hremoved⟩ := Option.bind_eq_some_iff.mp hupdate
  have hcleared : SameHashes s u := .modifyDir hclear fun _ => rfl
  have hv := Transition.foldlM_keeps
    (fun (_ : List FileEntry) (acc : Storage × OrderedMap Name Nat) => SameHashes s acc.1)
    (fun fe _ before after hbefore hplace => by
      obtain ⟨⟨k, w, existing''⟩, hslot, hplace⟩ := Option.bind_eq_some_iff.mp hplace
      obtain ⟨x, hmodify, hplace⟩ := Option.bind_eq_some_iff.mp hplace
      cases hplace
      exact (hbefore.trans (.subfileSlot hslot)).trans (.modifyDir hmodify fun _ => rfl))
    files (u, existing) (v, existing') hcleared hplaced
  refine SameHashes.trans hv (.foldlM (fun s kid t hremove => ?_) hremoved)
  unfold Storage.removeSubfile at hremove
  split at hremove
  · cases hremove
    exact .refl s
  · exact .deleteFileNode hremove

theorem SameHashes.adoptKids (hadopt : s.adoptKids i = some t) : SameHashes s t := by
  obtain ⟨d, -, hadopt⟩ := Option.bind_eq_some_iff.mp hadopt
  obtain ⟨⟨u, n⟩, hdirs, hadopt⟩ := Option.bind_eq_some_iff.mp hadopt
  obtain ⟨⟨v, m⟩, hfiles, hadopt⟩ := Option.bind_eq_some_iff.mp hadopt
  cases hadopt
  have hu := Transition.foldlM_keeps
    (fun (_ : List Nat) (acc : Storage × Nat) => SameHashes s acc.1)
    (fun kid _ before after hbefore hpass => by
      obtain ⟨w, hmodify, rfl⟩ := Option.map_eq_some_iff.mp hpass
      exact hbefore.trans (.modifyDir hmodify fun _ => rfl))
    d.subdirs (s, 0) (u, n) (.refl s) hdirs
  refine Transition.foldlM_keeps
    (fun (_ : List Nat) (acc : Storage × Nat) => SameHashes s acc.1)
    (fun kid _ before after hbefore hpass => ?_) d.subfiles (u, n) (t, m) hu hfiles
  unfold adoptSubfile at hpass
  split at hpass
  · cases hpass
  · rename_i fe hnode
    cases hpass
    exact hbefore.trans (.setFile (lt_length_of_node hnode) rfl rfl (dirHashAt_of_file hnode))
  · rename_i de hnode
    cases hpass
    refine hbefore.trans (.set (lt_length_of_node hnode) rfl rfl fun hash => ?_)
    rw [dirHashAt_of_dir hnode, Option.some_inj]
    simp

theorem SameHashes.createSubfile {file : Name × FileTS} (hcreate : s.createSubfile i file = some t) :
    SameHashes s t := by
  obtain ⟨u, hmodify, hcreate⟩ := Option.bind_eq_some_iff.mp hcreate
  cases hcreate
  exact (SameHashes.modifyDir hmodify fun _ => rfl).trans (.push rfl rfl fun _ => nofun)

theorem SameHashes.keepSubfiles {subfiles newFiles newFiles' : OrderedMap Name FileTS}
    {passes place : Nat}
    (hkeep : Storage.keepSubfiles i subfiles passes place s newFiles = some (t, newFiles')) :
    SameHashes s t := by
  induction passes generalizing s place newFiles with
  | zero =>
      cases hkeep
      exact .refl _
  | succ passes ih =>
      obtain ⟨d, -, hkeep⟩ := Option.bind_eq_some_iff.mp hkeep
      split at hkeep
      · cases hkeep
        exact .refl _
      · obtain ⟨fe, -, hkeep⟩ := Option.bind_eq_some_iff.mp hkeep
        split at hkeep
        · obtain ⟨u, hdelete, hkeep⟩ := Option.bind_eq_some_iff.mp hkeep
          obtain ⟨v, hmodify, hkeep⟩ := Option.bind_eq_some_iff.mp hkeep
          exact ((SameHashes.deleteFileNode hdelete).trans (.modifyDir hmodify fun _ => rfl)).trans
            (ih hkeep)
        · obtain ⟨u, hrefresh, hkeep⟩ := Option.bind_eq_some_iff.mp hkeep
          exact (SameHashes.refreshSubfile hrefresh).trans (ih hkeep)

theorem SameHashes.updateSubFilesList {subfiles newFiles : OrderedMap Name FileTS} {result : Bool}
    (hupdate : s.updateSubFilesList i subfiles = some (result, newFiles, t)) : SameHashes s t := by
  unfold Storage.updateSubFilesList at hupdate
  split at hupdate
  · cases hupdate
    exact .refl s
  · obtain ⟨d, -, hupdate⟩ := Option.bind_eq_some_iff.mp hupdate
    obtain ⟨⟨u, create⟩, hkeep, hupdate⟩ := Option.bind_eq_some_iff.mp hupdate
    obtain ⟨v, hloop, hupdate⟩ := Option.bind_eq_some_iff.mp hupdate
    cases hupdate
    exact (SameHashes.keepSubfiles hkeep).trans (.foldlM (fun _ _ _ => .createSubfile) hloop)

/-! ### Indexed storages -/

/-- Every directory that is left has the hash that it had. -/
def HashesFrom (s t : Storage) : Prop :=
  ∀ i hash, t.dirHashAt i = some hash → s.dirHashAt i = some hash

theorem Sole.mono (hsole : s.Sole i) (hfrom : HashesFrom s t) : t.Sole i :=
  fun j hash hi hj => hsole j hash (hfrom i hash hi) (hfrom j hash hj)

theorem Indexed.same (hindexed : Indexed s) (hsame : SameHashes s t) : Indexed t := by
  intro i hash hi
  rw [hsame.hash_eq] at hi
  obtain ⟨j, hfound, hj⟩ := hindexed i hash hi
  exact ⟨j, by rw [hsame.map_eq, hfound], (hsame.hash_eq j).trans hj⟩

/-- Where no two directories have the same hash, the others may vanish. -/
theorem Indexed.thin (hindexed : Indexed s) (hone : OneHashEach s) (hfrom : HashesFrom s t)
    (hmap : t.mDirHashes = s.mDirHashes) : Indexed t := by
  intro i hash hi
  obtain ⟨j, hfound, hj⟩ := hindexed i hash (hfrom i hash hi)
  have heq : j = i := hone i j hash (hfrom i hash hi) hj
  exact ⟨i, by rw [hmap, hfound, heq], hi⟩

/-- The entry for a hash is that of the directory that got it last. -/
theorem Indexed.place {hash : FileHash} (hindexed : Indexed s) (hi : t.dirHashAt i = some hash)
    (hother : ∀ j, j ≠ i → t.dirHashAt j = s.dirHashAt j)
    (hbefore : s.dirHashAt i = none ∨ s.dirHashAt i = some hash)
    (hmap : t.mDirHashes = s.mDirHashes.insert hash i) : Indexed t := by
  intro k hash' hk
  by_cases heq : hash = hash'
  · exact ⟨i, by rw [hmap, heq, OrderedMap.lookup_insert_self], heq ▸ hi⟩
  · have hki : k ≠ i := by
      rintro rfl
      exact heq (Option.some.inj (hi.symm.trans hk))
    obtain ⟨j, hfound, hj⟩ := hindexed k hash' ((hother k hki).symm.trans hk)
    have hji : j ≠ i := by
      rintro rfl
      obtain hnone | hsome := hbefore
      · simp [hnone] at hj
      · exact heq (Option.some.inj (hsome.symm.trans hj))
    exact ⟨j, by rw [hmap, OrderedMap.lookup_insert_ne _ i heq, hfound], (hother j hji).trans hj⟩

/-! ### Removal -/

theorem Removes.hashesFrom (hremoves : Removes s t) : HashesFrom s t := by
  intro i hash hi
  obtain heq | hnone := hremoves.node_eq i
  · exact (dirHashAt_congr heq).symm.trans hi
  · simp [dirHashAt_of_none hnone] at hi

/-- A removal erases the entries of directories that it takes away. -/
theorem recursRemove_erases {depth dir : Nat} (hremove : recursRemove depth s dir = some t)
    (hash : FileHash) : t.mDirHashes[hash]? = s.mDirHashes[hash]? ∨
      ∃ i, Relation.ReflTransGen s.Lists dir i ∧ s.dirHashAt i = some hash := by
  induction depth generalizing s t dir with
  | zero => cases hremove
  | succ depth ih =>
      obtain ⟨d, u, v, w, hnode, hsubdirs, hsubfiles, hdelete, rfl⟩ := recursRemove_cases hremove
      have hu := Transition.foldlM_keeps
        (fun rest u => rest ⊆ d.subdirs ∧ Removes s u ∧
          (u.mDirHashes[hash]? = s.mDirHashes[hash]? ∨
            ∃ i, Relation.ReflTransGen s.Lists dir i ∧ s.dirHashAt i = some hash))
        (fun kid rest before after ⟨hsubset, hremoves, hbefore⟩ hpass => by
          refine ⟨fun k hmem => hsubset (List.mem_cons_of_mem kid hmem),
            hremoves.trans (removes_recursRemove hpass).1, ?_⟩
          obtain hsame | ⟨i, hbelow, hi⟩ := ih hpass
          · rwa [hsame]
          · refine .inr ⟨i, ?_, hremoves.hashesFrom i hash hi⟩
            exact (Relation.ReflTransGen.mono (fun _ _ => hremoves.lists) _ _ hbelow).head
              ⟨d, hnode, .inl (hsubset List.mem_cons_self)⟩)
        d.subdirs s u ⟨List.Subset.refl _, .refl s, .inl rfl⟩ hsubdirs
      have hv : v.mDirHashes = u.mDirHashes :=
        (SameHashes.foldlM (fun _ _ _ => .deleteFileNode) hsubfiles).map_eq
      have hw : w.mDirHashes = v.mDirHashes := by
        obtain ⟨-, rfl⟩ | ⟨n, -, rfl⟩ := deleteNode_cases hdelete <;> rfl
      by_cases hhash : d.dirHash = hash
      · exact .inr ⟨dir, .refl, hhash ▸ dirHashAt_of_dir hnode⟩
      · change (w.mDirHashes.erase d.dirHash)[hash]? = _ ∨ _
        rw [OrderedMap.lookup_erase_ne _ hhash, hw, hv]
        exact hu.2.2

/-- A directory outside the removed tree is still found when those in it had hashes of their own. -/
theorem Indexed.recursRemove {depth dir : Nat} (hindexed : Indexed s)
    (hsole : ∀ i, Relation.ReflTransGen s.Lists dir i → s.Sole i)
    (hremove : Storage.recursRemove depth s dir = some t) : Indexed t := by
  have hfrom := (removes_recursRemove hremove).1.hashesFrom
  intro k hash hk
  have hk' := hfrom k hash hk
  have hstays : ¬ Relation.ReflTransGen s.Lists dir k := by
    intro hbelow
    simp [dirHashAt_of_none (recursRemove_gone hremove hbelow)] at hk
  obtain ⟨j, hfound, hj⟩ := hindexed k hash hk'
  refine ⟨j, ?_, ?_⟩
  · obtain hsame | ⟨i, hbelow, hi⟩ := recursRemove_erases hremove hash
    · exact hsame.trans hfound
    · exact absurd (hsole i hbelow k hash hi hk' ▸ hbelow) hstays
  · have hout : ¬ Relation.ReflTransGen s.Lists dir j := fun hbelow =>
      hstays (hsole j hbelow k hash hj hk' ▸ hbelow)
    exact (dirHashAt_congr (recursRemove_kept hremove j hout)).trans hj

/-- The check looks at neither map. -/
theorem maps_check {errors : String} (hcheck : s.check = some (t, errors)) :
    t.mDirHashes = s.mDirHashes ∧ t.mFileHashes = s.mFileHashes := by
  have hscan : ∀ (places : List Nat) (acc : Storage × List Nat × List String),
      (places.foldl checkNode acc).1.mDirHashes = acc.1.mDirHashes ∧
        (places.foldl checkNode acc).1.mFileHashes = acc.1.mFileHashes := by
    intro places
    induction places with
    | nil => exact fun _ => ⟨rfl, rfl⟩
    | cons place places ih =>
        intro acc
        have hplace : (checkNode acc place).1.mDirHashes = acc.1.mDirHashes ∧
            (checkNode acc place).1.mFileHashes = acc.1.mFileHashes := by
          unfold checkNode
          split
          split <;> exact ⟨rfl, rfl⟩
        have hrest := ih (checkNode acc place)
        exact ⟨hrest.1.trans hplace.1, hrest.2.trans hplace.2⟩
  unfold check at hcheck
  split at hcheck
  · cases hcheck
  · obtain ⟨acc, hloop, hcheck⟩ := Option.bind_eq_some_iff.mp hcheck
    cases hcheck
    refine Transition.foldlM_keeps
      (fun _ (acc : Storage × List String) =>
        acc.1.mDirHashes = s.mDirHashes ∧ acc.1.mFileHashes = s.mFileHashes)
      (fun i _ before after hbefore hpass => ?_) _ _ _ (hscan _ _) hloop
    obtain ⟨rfl, -⟩ | ⟨-, hdelete⟩ := dropOrphan_cases hpass
    · exact hbefore
    · obtain ⟨-, heq⟩ | ⟨n, -, heq⟩ := deleteNode_cases hdelete
      all_goals
        rw [heq]
        exact hbefore

end RetroShare.FileSharing.Storage
