import RetroShare.FileSharing.Proof.DirHashes

/-!
# Lookup of a directory by its hash

A directory is found as long as its entry in the map is neither erased with that of another one nor
overwritten. An update from a peer that moves a directory up erases the entry that it has just made.
-/

namespace RetroShare.FileSharing.Storage

variable {lax : Prop} {s t u v : Storage} {indx room : Nat}

/-! ### From the disk -/

theorem Linked.indexed_removeDirectory {result : Bool} (hlinked : Linked lax everywhere 0 [] room s)
    (hindexed : Indexed s) (hone : OneHashEach s)
    (hremove : s.removeDirectory indx = some (result, t)) : Indexed t ∧ HashesFrom s t := by
  obtain ⟨-, rfl⟩ | ⟨d, p, place, u, errors, -, -, -, hparent, hplace, hrecurs, hcheck⟩ :=
    removeDirectory_cases hremove
  · exact ⟨hindexed, fun _ _ hi => hi⟩
  · have hsame : SameHashes s (s.setNode d.parentIndex (some (.dir { p with
        subdirs := swapRemove p.subdirs place }))) := by
      refine .set (lt_length_of_node hparent) rfl rfl fun hash => ?_
      rw [dirHashAt_of_dir hparent, Option.some_inj]
      simp
    have hdetach : HashesFrom s _ := fun i hash hi => (hsame.hash_eq i).symm.trans hi
    have hu : Indexed u :=
      (hindexed.same hsame).recursRemove (fun i _ => (hone i).mono hdetach) hrecurs
    have hfrom : HashesFrom s u := fun i hash hi =>
      hdetach i hash ((removes_recursRemove hrecurs).1.hashesFrom i hash hi)
    have htop := hlinked.settled (fun _ h => h) le_rfl d.parentIndex
    have hpruned : Linked lax everywhere d.parentIndex [] room u :=
      (htop.detachSubdir hparent (swapRemove_perm hplace)).recursRemove (.refl _) hrecurs
    have hchecked : HashesFrom u t := by
      intro i hash hi
      obtain ⟨e, hnode, rfl⟩ := dirHashAt_eq_some.mp hi
      exact dirHashAt_of_dir (hpruned.unshared.check_before hcheck hnode)
    exact ⟨hu.thin (fun i => (hone i).mono hfrom) hchecked (maps_check hcheck).1,
      fun i hash hi => hfrom i hash (hchecked i hash hi)⟩

theorem Linked.indexed_keepSubdirs {subdirs create create' : OrderedMap Name Unit} {passes i : Nat}
    (hlinked : Linked lax everywhere 0 [] room s) (hindexed : Indexed s) (hone : OneHashEach s)
    (hkeep : Storage.keepSubdirs indx subdirs passes i s create = some (t, create')) : Indexed t := by
  induction passes generalizing s i create with
  | zero =>
      cases hkeep
      exact hindexed
  | succ passes ih =>
      obtain ⟨d, -, hkeep⟩ := Option.bind_eq_some_iff.mp hkeep
      split at hkeep
      · cases hkeep
        exact hindexed
      · obtain ⟨entry, -, hkeep⟩ := Option.bind_eq_some_iff.mp hkeep
        split at hkeep
        · obtain ⟨⟨removed, u⟩, hremove, hkeep⟩ := Option.bind_eq_some_iff.mp hkeep
          obtain ⟨hu, hfrom⟩ := hlinked.indexed_removeDirectory hindexed hone hremove
          exact ih (hlinked.removeDirectory hremove) hu (fun i => (hone i).mono hfrom) hkeep
        · exact ih hlinked hindexed hone hkeep

theorem Indexed.createSubdir {sha1sum : List UInt8 → FileHash} {seed : FileHash} {name : Name}
    (hindexed : Indexed s) (hcreate : s.createSubdir sha1sum indx seed name = some t) :
    Indexed t := by
  obtain ⟨d, -, hcreate⟩ := Option.bind_eq_some_iff.mp hcreate
  obtain ⟨u, hmodify, hcreate⟩ := Option.bind_eq_some_iff.mp hcreate
  cases hcreate
  have hlength : u.mNodes.length = s.mNodes.length := by
    obtain ⟨d', -, rfl⟩ := modifyDir_eq_some hmodify
    exact length_setNode _
  have hu : Indexed u := hindexed.same (.modifyDir hmodify fun _ => rfl)
  rw [← hlength]
  refine hu.place (i := u.mNodes.length) ?_ (fun j hj => ?_) (.inl ?_) rfl
  · exact dirHashAt_of_dir (node_pushNode_self _)
  · exact dirHashAt_congr (node_pushNode_ne _ hj)
  · exact dirHashAt_of_none (node_of_length_le le_rfl)

theorem Linked.indexed_updateSubDirectoryList {sha1sum : List UInt8 → FileHash}
    {subdirs : OrderedMap Name Unit} {seed : FileHash} {result : Bool}
    (hlinked : Linked lax everywhere 0 [] room s) (hindexed : Indexed s) (hone : OneHashEach s)
    (hupdate : s.updateSubDirectoryList sha1sum indx subdirs seed = some (result, t)) :
    Indexed t := by
  unfold Storage.updateSubDirectoryList at hupdate
  split at hupdate
  · cases hupdate
    exact hindexed
  · obtain ⟨d, -, hupdate⟩ := Option.bind_eq_some_iff.mp hupdate
    obtain ⟨⟨u, create⟩, hkeep, hupdate⟩ := Option.bind_eq_some_iff.mp hupdate
    obtain ⟨v, hloop, hupdate⟩ := Option.bind_eq_some_iff.mp hupdate
    cases hupdate
    exact Transition.foldlM_keeps (fun (_ : List Name) v => Indexed v)
      (fun _ _ _ _ hbefore hpass => hbefore.createSubdir hpass) _ _ _
      (hlinked.indexed_keepSubdirs hindexed hone hkeep) hloop

/-! ### From a peer -/

theorem subdirSlot_cases {dirName : Name} {hash : FileHash} {i : Nat}
    {existing existing' : OrderedMap FileHash Nat}
    (hslot : s.subdirSlot indx dirName existing hash = some (i, t, existing')) :
    (existing[hash]? = some i ∧ t = s ∧ existing' = existing.erase hash) ∨
    ((∀ k, existing[hash]? = some k → s.getDir k = none) ∧ existing' = existing ∧
      s.node i = none ∧ (∀ j, j ≠ i → t.node j = s.node j) ∧
      (∃ e, t.node i = some (.dir e) ∧ e.dirHash = hash ∧ e.subdirs = [] ∧ e.subfiles = []) ∧
      t.mDirHashes = s.mDirHashes.insert hash i) := by
  unfold Storage.subdirSlot at hslot
  split at hslot
  · rename_i kid hfound
    cases hslot
    exact .inl ⟨(Option.filter_eq_some_iff.mp hfound).1, rfl, rfl⟩
  · rename_i hmissing
    obtain ⟨⟨k, u⟩, halloc, hslot⟩ := Option.bind_eq_some_iff.mp hslot
    obtain ⟨d, -, hslot⟩ := Option.bind_eq_some_iff.mp hslot
    obtain ⟨hlt, hfree, hsame, -, hmap⟩ := allocateNewIndex_spec halloc
    cases hslot
    refine .inr ⟨fun kid hfound => ?_, rfl, hfree, fun j hj => ?_,
      ⟨_, node_setNode_self _ hlt, rfl, rfl, rfl⟩, ?_⟩
    · rw [Option.filter_eq_none_iff] at hmissing
      simpa using hmissing kid hfound
    · exact (node_setNode_ne _ hj).trans (hsame j)
    · exact congrArg (·.insert hash i) hmap

/-- The subdirectories that have been placed, at old or new indices. -/
structure Placing (indx : Nat) (hashes : List FileHash) (s v : Storage) : Prop where
  present : ∀ i, s.node i ≠ none → v.node i ≠ none
  hash_kept : ∀ i hash, s.dirHashAt i = some hash → v.dirHashAt i = some hash
  hash_new : ∀ i hash, v.dirHashAt i = some hash →
    s.dirHashAt i = some hash ∨ s.node i = none ∧ hash ∈ hashes
  lists : ∀ i kid, i ≠ indx → v.Lists i kid → s.Lists i kid
  indexed : Indexed v

theorem Placing.slot {dirName : Name} {hashes : List FileHash} {hash : FileHash} {i : Nat}
    {existing existing' : OrderedMap FileHash Nat} (hplacing : Placing indx hashes s u)
    (hmem : hash ∈ hashes)
    (hslot : u.subdirSlot indx dirName existing hash = some (i, v, existing'))
    (hfound : ∀ (key : FileHash) (kid : Nat), existing[key]? = some kid →
      s.dirHashAt kid = some key) :
    Placing indx hashes s v ∧ v.dirHashAt i = some hash ∧ existing'[hash]? = none ∧
      ∀ (key : FileHash) (kid : Nat), existing'[key]? = some kid → existing[key]? = some kid := by
  obtain ⟨hkid, rfl, rfl⟩ | ⟨hmissing, rfl, hfree, hother, ⟨e, he, rfl, hnodirs, hnofiles⟩, hmap⟩ :=
    subdirSlot_cases hslot
  · refine ⟨hplacing, hplacing.hash_kept i hash (hfound hash i hkid), ?_, fun key kid hkey => ?_⟩
    · rw [OrderedMap.lookup_erase, if_pos rfl]
    · rw [OrderedMap.lookup_erase] at hkey
      split at hkey
      · cases hkey
      · exact hkey
  · have hi := dirHashAt_of_dir he
    have habsent : existing'[e.dirHash]? = none := by
      by_contra hsome
      obtain ⟨kid, hkid⟩ := Option.ne_none_iff_exists'.mp hsome
      obtain ⟨d, hdir, -⟩ := dirHashAt_eq_some.mp (hplacing.hash_kept kid _ (hfound _ kid hkid))
      cases (getDir_eq_some.mpr hdir).symm.trans (hmissing kid hkid)
    have hold : ∀ j, u.node j ≠ none → v.node j = u.node j := by
      intro j hj
      refine hother j ?_
      rintro rfl
      exact hj hfree
    refine ⟨?_, hi, habsent, fun _ _ hkey => hkey⟩
    constructor
    case present =>
      intro j hj
      have hbefore := hplacing.present j hj
      rwa [hold j hbefore]
    case hash_kept =>
      intro j hash hj
      have hbefore := hplacing.hash_kept j hash hj
      obtain ⟨d, hdir, -⟩ := dirHashAt_eq_some.mp hbefore
      exact (dirHashAt_congr (hold j (by simp [hdir]))).trans hbefore
    case hash_new =>
      intro j hash hj
      by_cases heq : j = i
      · subst heq
        have hnew : s.node j = none := by
          by_contra hpresent
          exact hplacing.present j hpresent hfree
        exact .inr ⟨hnew, Option.some.inj (hi.symm.trans hj) ▸ hmem⟩
      · exact hplacing.hash_new j hash ((dirHashAt_congr (hother j heq)).symm.trans hj)
    case lists =>
      intro j kid hj hlists
      by_cases heq : j = i
      · obtain ⟨d, hdir, hkid⟩ := hlists
        cases (heq ▸ he).symm.trans hdir
        simp [hnodirs, hnofiles] at hkid
      · exact hplacing.lists j kid hj (hlists.congr (hother j heq).symm)
    case indexed =>
      exact hplacing.indexed.place hi (fun j hj => dirHashAt_congr (hother j hj))
        (.inl (dirHashAt_of_none hfree)) hmap

/-- The placed directory is listed, and gets its entry another time. -/
theorem Placing.place {dirName : Name} {hashes : List FileHash} {hash : FileHash}
    {existing existing' : OrderedMap FileHash Nat} (hplacing : Placing indx hashes s u)
    (hmem : hash ∈ hashes)
    (hplace : Storage.placeSubdir indx dirName (u, existing) hash = some (t, existing'))
    (hfound : ∀ (key : FileHash) (kid : Nat), existing[key]? = some kid →
      s.dirHashAt kid = some key) :
    Placing indx hashes s t ∧ existing'[hash]? = none ∧
      ∀ (key : FileHash) (kid : Nat), existing'[key]? = some kid → existing[key]? = some kid := by
  obtain ⟨⟨i, v, existing''⟩, hslot, hplace⟩ := Option.bind_eq_some_iff.mp hplace
  obtain ⟨w, hmodify, hplace⟩ := Option.bind_eq_some_iff.mp hplace
  cases hplace
  obtain ⟨hv, hi, habsent, hrest⟩ := hplacing.slot hmem hslot hfound
  have hsame : SameHashes v w := .modifyDir hmodify fun _ => rfl
  obtain ⟨d, hnode, rfl⟩ := modifyDir_eq_some hmodify
  have hset := node_of_set (t := v.setNode indx (some (.dir { d with
    subdirs := d.subdirs ++ [i] }))) (lt_length_of_node hnode) rfl
  refine ⟨?_, habsent, hrest⟩
  constructor
  case present =>
    intro j hj hnone
    have hnone' := (hset j).symm.trans hnone
    split at hnone'
    · cases hnone'
    · exact hv.present j hj hnone'
  case hash_kept => exact fun j key hj => (hsame.hash_eq j).trans (hv.hash_kept j key hj)
  case hash_new => exact fun j key hj => hv.hash_new j key ((hsame.hash_eq j).symm.trans hj)
  case lists =>
    intro j kid hj hlists
    exact hv.lists j kid hj (hlists.congr ((hset j).trans (if_neg hj)).symm)
  case indexed =>
    refine (hv.indexed.same hsame).place (i := i) ((hsame.hash_eq i).trans hi) (fun _ _ => rfl)
      (.inr ((hsame.hash_eq i).trans hi)) rfl

theorem Placing.placeAll {dirName : Name} {hashes : List FileHash}
    {existing existing' : OrderedMap FileHash Nat} (hindexed : Indexed s)
    (hfound : ∀ (key : FileHash) (kid : Nat), existing[key]? = some kid →
      s.dirHashAt kid = some key)
    (hplaced : hashes.foldlM (Storage.placeSubdir indx dirName) (s, existing) =
      some (t, existing')) :
    Placing indx hashes s t ∧ ∀ (key : FileHash) (kid : Nat), existing'[key]? = some kid →
      existing[key]? = some kid ∧ key ∉ hashes := by
  have hend := Transition.foldlM_keeps
    (fun (rest : List FileHash) (acc : Storage × OrderedMap FileHash Nat) =>
      rest ⊆ hashes ∧ Placing indx hashes s acc.1 ∧
        ∀ (key : FileHash) (kid : Nat), acc.2[key]? = some kid →
          existing[key]? = some kid ∧ (key ∈ hashes → key ∈ rest))
    (fun hash rest before after ⟨hsubset, hplacing, hbefore⟩ hpass => by
      obtain ⟨hplacing, habsent, hrest⟩ := hplacing.place (hsubset List.mem_cons_self) hpass
        fun key kid hkey => hfound key kid (hbefore key kid hkey).1
      refine ⟨fun k hmem => hsubset (List.mem_cons_of_mem hash hmem), hplacing,
        fun key kid hkey => ?_⟩
      obtain ⟨hkid, hleft⟩ := hbefore key kid (hrest key kid hkey)
      refine ⟨hkid, fun hmem => (List.mem_cons.mp (hleft hmem)).resolve_left ?_⟩
      rintro rfl
      cases habsent.symm.trans hkey)
    hashes (s, existing) (t, existing')
    ⟨List.Subset.refl _, ⟨fun _ hi => hi, fun _ _ hi => hi, fun _ _ hi => .inl hi,
      fun _ _ _ hlists => hlists, hindexed⟩, fun _ _ hkey => ⟨hkey, id⟩⟩ hplaced
  obtain ⟨-, hplacing, hleft⟩ := hend
  exact ⟨hplacing, fun key kid hkey => ⟨(hleft key kid hkey).1,
    fun hmem => List.not_mem_nil ((hleft key kid hkey).2 hmem)⟩⟩

/-- No directory below a subdirectory that is not announced again has an announced hash. -/
def MovesNoneUp (s : Storage) (indx : Nat) (hashes : List FileHash) : Prop :=
  ∀ d, s.node indx = some (.dir d) → ∀ kid ∈ d.subdirs, ∀ key, s.dirHashAt kid = some key →
    key ∉ hashes → ∀ i hash, Relation.ReflTransGen s.Lists kid i → s.dirHashAt i = some hash →
      hash ∉ hashes

theorem MovesNoneUp.congr {hashes : List FileHash} (hapart : s.MovesNoneUp indx hashes)
    (hsame : SameHashes s t) (hlinks : t.links = s.links) : t.MovesNoneUp indx hashes := by
  intro d hnode kid hmem key hkid hnew i hash hbelow hi
  have hbranch : s.links indx = some (.branch d.subdirs d.subfiles) :=
    hlinks ▸ links_eq_branch.mpr ⟨d, hnode, rfl, rfl⟩
  obtain ⟨d', hnode', hsubdirs, -⟩ := links_eq_branch.mp hbranch
  rw [lists_eq, hlinks, ← lists_eq] at hbelow
  exact hapart d' hnode' kid (hsubdirs ▸ hmem) key ((hsame.hash_eq kid).symm.trans hkid) hnew i hash
    hbelow ((hsame.hash_eq i).symm.trans hi)

/-- Below what is left over, nothing has changed. -/
theorem Placing.sole {hashes : List FileHash} {kid : Nat} {key : FileHash}
    (hplacing : Placing indx hashes s v) (hone : OneHashEach s)
    (hpresent : ∀ i j, s.Lists i j → s.node j ≠ none)
    (hkid : s.dirHashAt kid = some key) (htop : ¬ Relation.ReflTransGen v.Lists kid indx)
    (hapart : ∀ i hash, Relation.ReflTransGen s.Lists kid i → s.dirHashAt i = some hash →
      hash ∉ hashes) {i : Nat} (hbelow : Relation.ReflTransGen v.Lists kid i) : v.Sole i := by
  have hbefore : Relation.ReflTransGen s.Lists kid i := by
    clear hapart
    induction hbelow with
    | refl => exact .refl
    | tail hbelow hlists ih =>
        refine ih.tail (hplacing.lists _ _ ?_ hlists)
        rintro rfl
        exact htop hbelow
  intro j hash hi hj
  obtain hi | ⟨hnew, hmem⟩ := hplacing.hash_new i hash hi
  · obtain hj | ⟨-, hmem⟩ := hplacing.hash_new j hash hj
    · exact hone i j hash hi hj
    · exact absurd hmem (hapart i hash hbefore hi)
  · obtain heq | ⟨k, -, hlists⟩ := Relation.ReflTransGen.cases_tail hbefore
    · rw [← heq, dirHashAt_of_none hnew] at hkid
      cases hkid
    · exact absurd hnew (hpresent k i hlists)

theorem Rebuilt.indexed_updateSubdirsOf {d : DirEntry} {dirName : Name} {hashes : List FileHash}
    (hrebuilt : Rebuilt True indx [] (hashes.length + room) s) (hnode : s.node indx = some (.dir d))
    (hindexed : Indexed s) (hone : OneHashEach s) (hapart : s.MovesNoneUp indx hashes)
    (hupdate : s.updateSubdirsOf indx dirName hashes = some t) : Indexed t := by
  obtain ⟨existing, v, existing', hexisting, hplaced, hremoved⟩ := updateSubdirsOf_cases hnode hupdate
  obtain ⟨hcleared, hdirs, hkept⟩ := hrebuilt.clearSubdirs hnode (.inr trivial) hexisting
  obtain ⟨hv, -⟩ := hcleared.placeSubdirs hdirs hkept hplaced
  have hsame : SameHashes s (s.setNode indx (some (.dir { d with subdirs := [] }))) := by
    refine .set (lt_length_of_node hnode) rfl rfl fun hash => ?_
    rw [dirHashAt_of_dir hnode, Option.some_inj]
    simp
  have hlists : ∀ i kid, (s.setNode indx (some (.dir { d with subdirs := [] }))).Lists i kid →
      s.Lists i kid := by
    intro i kid hlists
    by_cases hi : i = indx
    · obtain ⟨d', hdir, hmem⟩ := hlists
      rw [hi, node_setNode_self _ (lt_length_of_node hnode)] at hdir
      cases hdir
      exact hi ▸ ⟨d, hnode, .inr (hmem.resolve_left List.not_mem_nil)⟩
    · exact hlists.congr (node_setNode_ne _ hi).symm
  obtain ⟨hplacing, hleft⟩ := Placing.placeAll (hindexed.same hsame) (fun key kid hkey =>
    (hsame.hash_eq kid).trans (existingKids_mem hexisting hkey).2) hplaced
  have hsole : ∀ kid ∈ values existing', ∀ i, Relation.ReflTransGen v.Lists kid i → v.Sole i := by
    intro kid hmem i hbelow
    obtain ⟨key, hkey⟩ := mem_values.mp hmem
    obtain ⟨hold, hnew⟩ := hleft key kid hkey
    obtain ⟨hkid, hhash⟩ := existingKids_mem hexisting hold
    refine hplacing.sole (fun i => (hone i).mono fun j hash hj => (hsame.hash_eq j).symm.trans hj)
      (fun i j hij => fun hnone => hcleared.forest.kid_present (lists_iff.mp hij)
        (links_eq_none.mpr hnone))
      ((hsame.hash_eq kid).trans hhash) ?_ (fun j hash hbelow hj => ?_) hbelow
    · rw [lists_eq]
      exact hv.forest.top_not_below hmem
    · exact hapart d hnode kid hkid key hhash hnew j hash
        (Relation.ReflTransGen.mono hlists _ _ hbelow) ((hsame.hash_eq j).symm.trans hj)
  have hend := Transition.foldlM_keeps
    (fun rest u => Indexed u ∧ ∀ kid ∈ rest, ∀ i, Relation.ReflTransGen u.Lists kid i → u.Sole i)
    (fun kid rest before after ⟨hbefore, hsole⟩ hpass => by
      unfold Storage.removeSubdir at hpass
      split at hpass
      · cases hpass
        exact ⟨hbefore, fun k hmem => hsole k (List.mem_cons_of_mem kid hmem)⟩
      · have hremoves := (removes_recursRemove hpass).1
        refine ⟨hbefore.recursRemove (hsole kid List.mem_cons_self) hpass,
          fun k hmem i hbelow => ?_⟩
        refine (hsole k (List.mem_cons_of_mem kid hmem) i ?_).mono hremoves.hashesFrom
        exact Relation.ReflTransGen.mono (fun _ _ => hremoves.lists) _ _ hbelow)
    (values existing') v t ⟨hplacing.indexed, hsole⟩ hremoved
  exact hend.1

theorem Linked.indexed_updateDirEntry {dirName : Name} {mostRecentTime dirModtime now : Int}
    {subdirsHash : List FileHash} {subfilesArray : List FileEntry} {result : Bool}
    (hlinked : Linked True everywhere 0 [] (subdirsHash.length + room) s)
    (hindexed : Indexed s) (hone : OneHashEach s) (hapart : s.MovesNoneUp indx subdirsHash)
    (hupdate : s.updateDirEntry indx dirName mostRecentTime dirModtime subdirsHash subfilesArray now =
      some (result, t)) : Indexed t := by
  unfold Storage.updateDirEntry at hupdate
  split at hupdate
  · cases hupdate
    exact hindexed
  · obtain ⟨u, hmodify, hupdate⟩ := Option.bind_eq_some_iff.mp hupdate
    obtain ⟨v, hdirs, hupdate⟩ := Option.bind_eq_some_iff.mp hupdate
    obtain ⟨w, hfiles, hupdate⟩ := Option.bind_eq_some_iff.mp hupdate
    obtain ⟨x, hadopt, hupdate⟩ := Option.bind_eq_some_iff.mp hupdate
    cases hupdate
    obtain ⟨hu, -, -, e, htop⟩ :=
      hlinked.retitle hmodify (fun _ => ⟨rfl, rfl⟩) (fun _ => rfl) fun _ => rfl
    have hsame : SameHashes s u := .modifyDir hmodify fun _ => rfl
    have hrebuilt : Rebuilt True indx [] (subdirsHash.length + room) u :=
      hu.settled (fun _ _ => trivial) le_rfl indx
    have hv := hrebuilt.indexed_updateSubdirsOf htop (hindexed.same hsame)
      (fun i => (hone i).mono fun j hash hj => (hsame.hash_eq j).symm.trans hj)
      (hapart.congr hsame (links_modifyDir hmodify fun _ => ⟨rfl, rfl⟩)) hdirs
    exact (hv.same (.updateSubfilesOf hfiles)).same (.adoptKids hadopt)

/-! ### Lookups -/

/-- A directory is found by its hash, and nothing else is. -/
def FindsDirectories (s : Storage) : Prop :=
  ∀ hash i, (s.getIndexFromDirHash hash).1 = some i ↔
    ∃ d, s.node i = some (.dir d) ∧ d.dirHash = hash

theorem getIndexFromDirHash_cases (s : Storage) (hash : FileHash) :
    (∃ i, s.getIndexFromDirHash hash = (some i, s) ∧ s.mDirHashes[hash]? = some i ∧
      s.dirHashAt i = some hash) ∨
    ((s.getIndexFromDirHash hash).1 = none ∧
      (s.getIndexFromDirHash hash).2.mNodes = s.mNodes ∧
      (∀ key, hash ≠ key → (s.getIndexFromDirHash hash).2.mDirHashes[key]? = s.mDirHashes[key]?) ∧
      ∀ i, s.mDirHashes[hash]? = some i → i = noIndex ∨ s.dirHashAt i ≠ some hash) := by
  unfold getIndexFromDirHash
  split
  · rename_i hnone
    refine .inr ⟨rfl, rfl, fun _ _ => rfl, fun i hsome => ?_⟩
    cases hnone.symm.trans hsome
  · rename_i index hfound
    split
    · rename_i hstale
      refine .inr ⟨rfl, rfl, fun key hne => OrderedMap.lookup_erase_ne _ hne, fun i hsome => ?_⟩
      cases hfound.symm.trans hsome
      by_contra hvalid
      obtain ⟨hindex, hhash⟩ := not_or.mp hvalid
      obtain ⟨d, hnode, heq⟩ := dirHashAt_eq_some.mp (not_not.mp hhash)
      simp [checkIndex, hnode, Node.type, hindex, getDir_eq_some.mpr hnode, heq] at hstale
    · rename_i hvalid
      simp only [Bool.or_eq_true, Bool.not_eq_true', decide_eq_true_eq, not_or, not_not] at hvalid
      exact .inl ⟨index, rfl, hfound, hvalid.2⟩

theorem mNodes_getIndexFromDirHash (s : Storage) (hash : FileHash) :
    (s.getIndexFromDirHash hash).2.mNodes = s.mNodes := by
  obtain ⟨i, heq, -⟩ | ⟨-, hnodes, -⟩ := getIndexFromDirHash_cases s hash
  · rw [heq]
  · exact hnodes

theorem Indexed.findsDirectories (hindexed : Indexed s) (hone : OneHashEach s)
    (hlength : s.mNodes.length ≤ noIndex) : s.FindsDirectories := by
  intro hash i
  rw [← dirHashAt_eq_some]
  obtain ⟨j, heq, -, hj⟩ | ⟨hnone, -, -, hstale⟩ := getIndexFromDirHash_cases s hash
  · rw [heq, Option.some_inj]
    constructor
    · rintro rfl
      exact hj
    · exact fun hi => hone i j hash hi hj
  · rw [hnone]
    refine ⟨nofun, fun hi => ?_⟩
    obtain ⟨j, hfound, hj⟩ := hindexed i hash hi
    obtain ⟨d, hnode, -⟩ := dirHashAt_eq_some.mp hj
    have hlt := lt_length_of_node hnode
    obtain hindex | hne := hstale j hfound
    · omega
    · exact absurd hj hne

/-- A lookup erases no entry of a directory. -/
theorem Indexed.lookup (hindexed : Indexed s) (hlength : s.mNodes.length ≤ noIndex)
    (hash : FileHash) : Indexed (s.getIndexFromDirHash hash).2 := by
  obtain ⟨i, heq, -⟩ | ⟨-, hnodes, hkept, hstale⟩ := getIndexFromDirHash_cases s hash
  · rwa [heq]
  · have hsame : ∀ i, (s.getIndexFromDirHash hash).2.dirHashAt i = s.dirHashAt i :=
      fun i => dirHashAt_congr (node_congr hnodes i)
    intro i key hi
    obtain ⟨j, hfound, hj⟩ := hindexed i key ((hsame i).symm.trans hi)
    refine ⟨j, ?_, (hsame j).trans hj⟩
    by_cases hkey : hash = key
    · subst hkey
      obtain ⟨d, hnode, -⟩ := dirHashAt_eq_some.mp hj
      have hlt := lt_length_of_node hnode
      obtain hindex | hne := hstale j hfound
      · omega
      · exact absurd hj hne
    · exact (hkept key hkey).trans hfound

end RetroShare.FileSharing.Storage

namespace RetroShare.FileSharing

/-! ### Runs -/

inductive LookupOp
  | update (op : StorageOp)
  | getIndexFromDirHash (hash : FileHash)

namespace Storage

/-- The updates, with lookups between them. -/
def stepOrLookup (sha1sum : List UInt8 → FileHash) (s : Storage) : LookupOp → Option Storage
  | .update op => s.step sha1sum op
  | .getIndexFromDirHash hash => some (s.getIndexFromDirHash hash).2

/-- An update from a peer moves no directory up out of a subdirectory that it removes. -/
def KeepsEntries (s : Storage) : StorageOp → Prop
  | .updateDirEntry indx _ _ _ subdirsHash _ _ => s.MovesNoneUp indx subdirsHash
  | _ => True

def AllowsLookupOp (s : Storage) : LookupOp → Prop
  | .update op => op.IsUpdate ∧ s.HasIndices op ∧ s.OneHashEach
  | .getIndexFromDirHash _ => True

def KeepsEntriesBy (s : Storage) : LookupOp → Prop
  | .update op => s.KeepsEntries op
  | .getIndexFromDirHash _ => True

variable {s t : Storage}

theorem Indexed.step {sha1sum : List UInt8 → FileHash} {op : StorageOp} (hindexed : Indexed s)
    (hlinked : Linked True everywhere 0 [] 0 s) (hupdate : op.IsUpdate) (hroom : s.HasIndices op)
    (hone : OneHashEach s) (hkeeps : s.KeepsEntries op) (hstep : s.step sha1sum op = some t) :
    Indexed t := by
  cases op with
  | updateSubDirectoryList indx subdirs seed =>
      obtain ⟨⟨result, u⟩, hupdate, rfl⟩ := Option.map_eq_some_iff.mp hstep
      exact hlinked.indexed_updateSubDirectoryList hindexed hone hupdate
  | updateSubFilesList indx subfiles =>
      obtain ⟨⟨result, newFiles, u⟩, hupdate, rfl⟩ := Option.map_eq_some_iff.mp hstep
      exact hindexed.same (.updateSubFilesList hupdate)
  | updateDirEntry indx dirName mostRecentTime dirModtime subdirsHash subfilesArray now =>
      obtain ⟨⟨result, u⟩, hupdate, rfl⟩ := Option.map_eq_some_iff.mp hstep
      have hstart : Linked True everywhere 0 [] (subdirsHash.length + subfilesArray.length) s :=
        { hlinked with length_le := hroom }
      exact hstart.indexed_updateDirEntry hindexed hone hkeeps hupdate
  | removeDirectory indx =>
      obtain ⟨⟨result, u⟩, hremove, rfl⟩ := Option.map_eq_some_iff.mp hstep
      exact (hlinked.indexed_removeDirectory hindexed hone hremove).1
  | updateFile fileIndex hash fname size modfTime =>
      obtain ⟨⟨result, u⟩, hupdate, rfl⟩ := Option.map_eq_some_iff.mp hstep
      exact hindexed.same (.updateFile hupdate)
  | updateHash fileIndex hash =>
      obtain ⟨⟨result, u⟩, hupdate, rfl⟩ := Option.map_eq_some_iff.mp hstep
      exact hindexed.same (.updateHash hupdate)
  | check => exact hupdate.elim
  | load data => exact hupdate.elim

theorem indexed_new : Indexed Storage.new := by
  intro i hash hi
  cases i with
  | zero =>
      cases hi
      exact ⟨0, OrderedMap.lookup_insert_self _ _ _, rfl⟩
  | succ i => cases hi

/-- **Directories are found by their hash.** -/
theorem findsDirectories_of_reaches (sha1sum : List UInt8 → FileHash)
    (hreach : Transition.Reaches (stepOrLookup sha1sum)
      (fun s op => s.AllowsLookupOp op ∧ s.KeepsEntriesBy op) Storage.new s)
    (hone : s.OneHashEach) : s.FindsDirectories := by
  have hend := hreach.invariant (fun s => Linked True everywhere 0 [] 0 s ∧ Indexed s)
    (fun before op after ⟨hlinked, hindexed⟩ ⟨hallowed, hkeeps⟩ hstep => by
      cases op with
      | update op =>
          obtain ⟨hupdate, hroom, hone⟩ := hallowed
          exact ⟨hlinked.step hupdate hroom (.inr trivial) hstep,
            hindexed.step hlinked hupdate hroom hone hkeeps hstep⟩
      | getIndexFromDirHash hash =>
          cases hstep
          have hnodes := mNodes_getIndexFromDirHash before hash
          exact ⟨hlinked.congr (congrArg List.length hnodes) (node_congr hnodes),
            hindexed.lookup hlinked.length_le hash⟩)
    ⟨linked_new, indexed_new⟩
  exact hend.2.findsDirectories hone hend.1.length_le

theorem oneHashEach_iff : s.OneHashEach ↔ ∀ i < s.mNodes.length, ∀ j < s.mNodes.length,
    s.dirHashAt i ≠ none ∧ s.dirHashAt i = s.dirHashAt j → j = i := by
  constructor
  · rintro hone i - j - ⟨hi, heq⟩
    obtain ⟨hash, hhash⟩ := Option.ne_none_iff_exists'.mp hi
    exact hone i j hash hhash (heq.symm.trans hhash)
  · intro hone i j hash hi hj
    have hlt : ∀ {k}, s.dirHashAt k = some hash → k < s.mNodes.length := by
      intro k hk
      obtain ⟨d, hnode, -⟩ := dirHashAt_eq_some.mp hk
      exact lt_length_of_node hnode
    exact hone i (hlt hi) j (hlt hj) ⟨by simp [hi], hi.trans hj.symm⟩

instance : Decidable s.OneHashEach := decidable_of_iff _ oneHashEach_iff.symm

def announceDir (indx : Nat) (hashes : List FileHash) : LookupOp :=
  .update (.updateDirEntry indx [] 0 0 hashes [] 0)

/-- A storage after an answer of its peer that lists directories. -/
def answered (s : Storage) (indx : Nat) (hashes : List FileHash) : Storage :=
  (s.stepOrLookup (fun _ => nullHash) (announceDir indx hashes)).getD s

def hashOf (byte : UInt8) : FileHash := ⟨List.replicate 20 byte, List.length_replicate⟩

theorem reaches_answered {allowed : Storage → LookupOp → Prop} {indx : Nat} {hashes : List FileHash}
    (hreach : Transition.Reaches (stepOrLookup fun _ => nullHash) allowed Storage.new s)
    (hallowed : allowed s (announceDir indx hashes)) :
    Transition.Reaches (stepOrLookup fun _ => nullHash) allowed Storage.new
      (s.answered indx hashes) := by
  unfold answered
  cases hstep : s.stepOrLookup (fun _ => nullHash) (announceDir indx hashes) with
  | none => exact hreach
  | some t => exact hreach.tail hallowed hstep

theorem findsDirectories_of_reaches_announced :
    (Storage.new.answered 0 [hashOf 1]).FindsDirectories := by
  refine findsDirectories_of_reaches (fun _ => nullHash)
    (reaches_answered (.refl Storage.new) ⟨⟨trivial, ?_, ?_⟩, ?_⟩) ?_
  · unfold HasIndices
    decide
  · decide
  · intro d hdir kid hmem
    cases hdir
    exact absurd hmem List.not_mem_nil
  · decide

/-- A directory that is announced one level higher than before is not found. -/
theorem findsDirectories_counterexample :
    ¬ ∀ (sha1sum : List UInt8 → FileHash) (s : Storage),
      Transition.Reaches (stepOrLookup sha1sum) AllowsLookupOp Storage.new s → s.OneHashEach →
        s.FindsDirectories := by
  intro hclaim
  have hroom : ∀ {s : Storage} {indx : Nat} {hashes : List FileHash},
      s.mNodes.length ≤ 4 → hashes.length ≤ 1 →
        s.HasIndices (.updateDirEntry indx [] 0 0 hashes [] 0) := by
    intro s indx hashes hnodes hhashes
    simp only [HasIndices, StorageOp.newNodes, List.length_nil, noIndex]
    omega
  have hfirst : Transition.Reaches (stepOrLookup fun _ => nullHash) AllowsLookupOp Storage.new
      (Storage.new.answered 0 [hashOf 1]) :=
    reaches_answered (.refl Storage.new) ⟨trivial, hroom (by decide) (by decide), by decide⟩
  have hsecond : Transition.Reaches (stepOrLookup fun _ => nullHash) AllowsLookupOp Storage.new
      ((Storage.new.answered 0 [hashOf 1]).answered 1 [hashOf 2]) :=
    reaches_answered hfirst ⟨trivial, hroom (by decide) (by decide), by decide⟩
  have hthird : Transition.Reaches (stepOrLookup fun _ => nullHash) AllowsLookupOp Storage.new
      (((Storage.new.answered 0 [hashOf 1]).answered 1 [hashOf 2]).answered 0 [hashOf 2]) :=
    reaches_answered hsecond ⟨trivial, hroom (by decide) (by decide), by decide⟩
  have hfinds := hclaim _ _ hthird (by decide) (hashOf 2) 3
  have hlive : (((Storage.new.answered 0 [hashOf 1]).answered 1 [hashOf 2]).answered 0
      [hashOf 2]).dirHashAt 3 = some (hashOf 2) := rfl
  cases hfinds.mpr (dirHashAt_eq_some.mp hlive)

end Storage

end RetroShare.FileSharing
