import RetroShare.FileSharing.HashSearch
import RetroShare.FileSharing.Proof.DirHashes
import RetroShare.FileSharing.Proof.Loading
import RetroShare.Util.Proof.IgnoreCase

/-!
# Searching the file hierarchy

The entries of the map of file hashes are not taken out when a file goes. A search is right as long
as an entry that is out of date leads to a free index; whether it stays so is decided where an index
is given out again and where a file gets another hash.
-/

namespace RetroShare.RegularExpression

variable {str term : List UInt8}

theorem startsWith_sameLetters (hstarts : startsWith compareCharIC str term = true) :
    ∃ part, part <+: str ∧ SameLetters part term := by
  induction str, term using startsWith.induct with
  | case1 str => exact ⟨[], List.nil_prefix, rfl⟩
  | case2 ch term => cases hstarts
  | case3 ch str ch' term ih =>
      rw [startsWith, Bool.and_eq_true] at hstarts
      obtain ⟨part, hpart, hsame⟩ := ih hstarts.2
      refine ⟨ch :: part, List.prefix_cons_inj ch |>.mpr hpart, ?_⟩
      unfold SameLetters lowered at hsame ⊢
      rw [List.map_cons, List.map_cons, hsame, beq_iff_eq.mp hstarts.1]

/-- What the search that ignores case finds is a part of the string. -/
theorem search_sameLetters (hfound : (search compareCharIC str term).isEmpty = false) :
    ∃ part, part <:+: str ∧ SameLetters part term := by
  induction str with
  | nil => cases hfound
  | cons ch str ih =>
      rw [search] at hfound
      split at hfound
      · rename_i hstarts
        obtain ⟨part, hpart, hsame⟩ := startsWith_sameLetters hstarts
        exact ⟨part, hpart.isInfix, hsame⟩
      · obtain ⟨part, hpart, hsame⟩ := ih hfound
        exact ⟨part, hpart.trans (List.suffix_cons ch str).isInfix, hsame⟩

end RetroShare.RegularExpression

namespace RetroShare.FileSharing.Storage

variable {s t u : Storage} {fin : OrderedMap FileHash Nat} {i k : Nat} {hash : FileHash}

/-- The entry for the hash leads to the index in both maps. -/
def StaysAt (map fin : OrderedMap FileHash Nat) (hash : FileHash) (i : Nat) : Prop :=
  map[hash]? = some i ∧ fin[hash]? = some i

/-- At most one entry leads to the index. -/
def LedOnce (map fin : OrderedMap FileHash Nat) (i : Nat) : Prop :=
  ∀ hash hash', StaysAt map fin hash i → StaysAt map fin hash' i → hash = hash'

/-- The entries that are also in `fin` lead into the table, to no directory and, unless the index is
free, each to a node of its own. -/
structure WellLed (fin : OrderedMap FileHash Nat) (s : Storage) : Prop where
  inside : ∀ hash i, StaysAt s.mFileHashes fin hash i → i < s.mNodes.length
  no_dir : ∀ hash i d, StaysAt s.mFileHashes fin hash i → s.node i ≠ some (.dir d)
  alone : ∀ i, s.node i ≠ none → LedOnce s.mFileHashes fin i

/-! ### Operations that leave the map alone -/

/-- The nodes that are left are of the kind that they were. -/
structure SameKinds (s t : Storage) : Prop where
  length_le : s.mNodes.length ≤ t.mNodes.length
  map_eq : t.mFileHashes = s.mFileHashes
  kind_eq : ∀ i < s.mNodes.length, ∀ n, t.node i = some n →
    ∃ before, s.node i = some before ∧ before.type = n.type

theorem SameKinds.refl (s : Storage) : SameKinds s s where
  length_le := le_rfl
  map_eq := rfl
  kind_eq _ _ n hnode := ⟨n, hnode, rfl⟩

theorem SameKinds.trans (hfirst : SameKinds s t) (hsecond : SameKinds t u) : SameKinds s u where
  length_le := hfirst.length_le.trans hsecond.length_le
  map_eq := hsecond.map_eq.trans hfirst.map_eq
  kind_eq i hi n hnode := by
    obtain ⟨middle, hmiddle, htype⟩ := hsecond.kind_eq i (hi.trans_le hfirst.length_le) n hnode
    obtain ⟨before, hbefore, htype'⟩ := hfirst.kind_eq i hi middle hmiddle
    exact ⟨before, hbefore, htype'.trans htype⟩

theorem SameKinds.of_nodes (hnodes : t.mNodes = s.mNodes) (hmap : t.mFileHashes = s.mFileHashes) :
    SameKinds s t where
  length_le := (congrArg List.length hnodes).ge
  map_eq := hmap
  kind_eq i _ n hnode := ⟨n, (node_congr hnodes i).symm.trans hnode, rfl⟩

/-- Another node of the kind that was there. -/
theorem SameKinds.set {n n' : Node} (hnode : s.node i = some n)
    (hnodes : t.mNodes = s.mNodes.set i (some n')) (hmap : t.mFileHashes = s.mFileHashes)
    (htype : n.type = n'.type) : SameKinds s t where
  length_le := by rw [hnodes, List.length_set]
  map_eq := hmap
  kind_eq j _ m hj := by
    rw [node_of_set (lt_length_of_node hnode) hnodes] at hj
    split at hj
    · rename_i heq
      cases hj
      exact ⟨n, heq ▸ hnode, htype⟩
    · exact ⟨m, hj, rfl⟩

theorem SameKinds.modifyDir {f : DirEntry → DirEntry} (hmodify : s.modifyDir i f = some t) :
    SameKinds s t := by
  obtain ⟨d, hnode, rfl⟩ := modifyDir_eq_some hmodify
  exact .set hnode rfl rfl rfl

theorem SameKinds.of_gone (hlength : t.mNodes.length = s.mNodes.length)
    (hmap : t.mFileHashes = s.mFileHashes) (hnode : ∀ i, t.node i = s.node i ∨ t.node i = none) :
    SameKinds s t where
  length_le := hlength.ge
  map_eq := hmap
  kind_eq i _ n hi := by
    obtain heq | hnone := hnode i
    · exact ⟨n, heq.symm.trans hi, rfl⟩
    · cases hnone.symm.trans hi

theorem SameKinds.foldlM {Elem : Type} {pass : Storage → Elem → Option Storage}
    (hpass : ∀ s elem t, pass s elem = some t → SameKinds s t) {elems : List Elem}
    (hloop : elems.foldlM pass s = some t) : SameKinds s t :=
  Transition.foldlM_keeps (fun _ u => SameKinds s u)
    (fun elem _ before after hbefore hstep => hbefore.trans (hpass before elem after hstep)) elems s t
    (.refl s) hloop

/-- A node behind the end. -/
theorem SameKinds.push {n : Option Node} (hnodes : t.mNodes = s.mNodes ++ [n])
    (hmap : t.mFileHashes = s.mFileHashes) : SameKinds s t where
  length_le := by simp [hnodes]
  map_eq := hmap
  kind_eq i hi m hnode := by
    refine ⟨m, ?_, rfl⟩
    rw [node, hnodes, List.getElem?_append_left hi] at hnode
    exact hnode

theorem SameKinds.deleteFileNode (hdelete : s.deleteFileNode i = some t) : SameKinds s t := by
  refine .of_gone (length_deleteFileNode hdelete) ?_ (removes_deleteFileNode hdelete).1.node_eq
  obtain ⟨-, rfl⟩ | ⟨fe, -, rfl⟩ := deleteFileNode_cases hdelete <;> rfl

theorem SameKinds.recursRemove {depth dir : Nat} (hremove : Storage.recursRemove depth s dir = some t) :
    SameKinds s t := by
  refine .of_gone (length_recursRemove hremove) ?_ (removes_recursRemove hremove).1.node_eq
  induction depth generalizing s t dir with
  | zero => cases hremove
  | succ depth ih =>
      obtain ⟨d, u, v, w, -, hsubdirs, hsubfiles, hdelete, rfl⟩ := recursRemove_cases hremove
      have hu : u.mFileHashes = s.mFileHashes :=
        Transition.foldlM_keeps (fun _ u => u.mFileHashes = s.mFileHashes)
          (fun _ _ _ _ hbefore hpass => (ih hpass).trans hbefore) _ _ _ rfl hsubdirs
      have hv : v.mFileHashes = u.mFileHashes :=
        (SameKinds.foldlM (fun _ _ _ => .deleteFileNode) hsubfiles).map_eq
      have hw : w.mFileHashes = v.mFileHashes := by
        obtain ⟨-, rfl⟩ | ⟨n, -, rfl⟩ := deleteNode_cases hdelete <;> rfl
      exact (hw.trans hv).trans hu

theorem SameKinds.check {errors : String} (hcheck : s.check = some (t, errors)) : SameKinds s t where
  length_le := (length_check hcheck).ge
  map_eq := (maps_check hcheck).2
  kind_eq i _ n hnode := by
    obtain ⟨u, hits, hscanned, hkept, hgone, -⟩ := check_cases hcheck
    have hu : u.node i = some n := by
      by_cases hhit : Hit hits i
      · exact (hkept i hhit).symm.trans hnode
      · cases (hgone i hhit).symm.trans hnode
    obtain heq | ⟨d, d', hold, hnew, -⟩ := hscanned.thins i
    · exact ⟨n, heq.symm.trans hu, rfl⟩
    · cases hnew.symm.trans hu
      exact ⟨_, hold, rfl⟩

theorem SameKinds.removeDirectory {result : Bool} (hremove : s.removeDirectory i = some (result, t)) :
    SameKinds s t := by
  obtain ⟨-, rfl⟩ | ⟨d, p, place, u, errors, -, -, -, hparent, -, hrecurs, hcheck⟩ :=
    removeDirectory_cases hremove
  · exact .refl _
  · have hdetach : SameKinds s (s.setNode d.parentIndex (some (.dir { p with
        subdirs := swapRemove p.subdirs place }))) := .set hparent rfl rfl rfl
    exact (hdetach.trans (.recursRemove hrecurs)).trans (.check hcheck)

theorem SameKinds.keepSubdirs {subdirs create create' : OrderedMap Name Unit} {passes place : Nat}
    (hkeep : Storage.keepSubdirs i subdirs passes place s create = some (t, create')) :
    SameKinds s t := by
  induction passes generalizing s place create with
  | zero =>
      cases hkeep
      exact .refl _
  | succ passes ih =>
      obtain ⟨d, -, hkeep⟩ := Option.bind_eq_some_iff.mp hkeep
      split at hkeep
      · cases hkeep
        exact .refl _
      · obtain ⟨entry, -, hkeep⟩ := Option.bind_eq_some_iff.mp hkeep
        split at hkeep
        · obtain ⟨⟨removed, u⟩, hremove, hkeep⟩ := Option.bind_eq_some_iff.mp hkeep
          exact (SameKinds.removeDirectory hremove).trans (ih hkeep)
        · exact ih hkeep

theorem SameKinds.updateSubDirectoryList {sha1sum : List UInt8 → FileHash}
    {subdirs : OrderedMap Name Unit} {seed : FileHash} {result : Bool}
    (hupdate : s.updateSubDirectoryList sha1sum i subdirs seed = some (result, t)) :
    SameKinds s t := by
  unfold Storage.updateSubDirectoryList at hupdate
  split at hupdate
  · cases hupdate
    exact .refl _
  · obtain ⟨d, -, hupdate⟩ := Option.bind_eq_some_iff.mp hupdate
    obtain ⟨⟨u, create⟩, hkeep, hupdate⟩ := Option.bind_eq_some_iff.mp hupdate
    obtain ⟨v, hloop, hupdate⟩ := Option.bind_eq_some_iff.mp hupdate
    cases hupdate
    refine (SameKinds.keepSubdirs hkeep).trans (.foldlM (fun s name t hcreate => ?_) hloop)
    obtain ⟨d, -, hcreate⟩ := Option.bind_eq_some_iff.mp hcreate
    obtain ⟨w, hmodify, hcreate⟩ := Option.bind_eq_some_iff.mp hcreate
    cases hcreate
    exact (SameKinds.modifyDir hmodify).trans (.push rfl rfl)

theorem SameKinds.refreshSubfile {ts : FileTS} (hrefresh : s.refreshSubfile i ts = some t) :
    SameKinds s t := by
  obtain ⟨fe, hnode, rfl | rfl⟩ := refreshSubfile_cases hrefresh
  · exact .refl _
  · exact .set hnode rfl rfl rfl

theorem SameKinds.keepSubfiles {subfiles newFiles newFiles' : OrderedMap Name FileTS}
    {passes place : Nat}
    (hkeep : Storage.keepSubfiles i subfiles passes place s newFiles = some (t, newFiles')) :
    SameKinds s t := by
  induction passes generalizing s place newFiles with
  | zero =>
      cases hkeep
      exact .refl _
  | succ passes ih =>
      obtain ⟨d, -, hkeep⟩ := Option.bind_eq_some_iff.mp hkeep
      split at hkeep
      · cases hkeep
        exact .refl _
      · obtain ⟨fe, -, hkeep⟩ := Option.bind_eq_some_iff.mp hkeep
        split at hkeep
        · obtain ⟨u, hdelete, hkeep⟩ := Option.bind_eq_some_iff.mp hkeep
          obtain ⟨v, hmodify, hkeep⟩ := Option.bind_eq_some_iff.mp hkeep
          exact ((SameKinds.deleteFileNode hdelete).trans (.modifyDir hmodify)).trans (ih hkeep)
        · obtain ⟨u, hrefresh, hkeep⟩ := Option.bind_eq_some_iff.mp hkeep
          exact (SameKinds.refreshSubfile hrefresh).trans (ih hkeep)

/-- A new file has no entry before it is hashed. -/
theorem SameKinds.updateSubFilesList {subfiles newFiles : OrderedMap Name FileTS} {result : Bool}
    (hupdate : s.updateSubFilesList i subfiles = some (result, newFiles, t)) : SameKinds s t := by
  unfold Storage.updateSubFilesList at hupdate
  split at hupdate
  · cases hupdate
    exact .refl s
  · obtain ⟨d, -, hupdate⟩ := Option.bind_eq_some_iff.mp hupdate
    obtain ⟨⟨u, create⟩, hkeep, hupdate⟩ := Option.bind_eq_some_iff.mp hupdate
    obtain ⟨v, hloop, hupdate⟩ := Option.bind_eq_some_iff.mp hupdate
    cases hupdate
    refine (SameKinds.keepSubfiles hkeep).trans (.foldlM (fun s file t hcreate => ?_) hloop)
    obtain ⟨w, hmodify, hcreate⟩ := Option.bind_eq_some_iff.mp hcreate
    cases hcreate
    exact (SameKinds.modifyDir hmodify).trans (.push rfl rfl)

theorem SameKinds.adoptKids (hadopt : s.adoptKids i = some t) : SameKinds s t := by
  obtain ⟨d, -, hadopt⟩ := Option.bind_eq_some_iff.mp hadopt
  obtain ⟨⟨u, n⟩, hdirs, hadopt⟩ := Option.bind_eq_some_iff.mp hadopt
  obtain ⟨⟨v, m⟩, hfiles, hadopt⟩ := Option.bind_eq_some_iff.mp hadopt
  cases hadopt
  have hu := Transition.foldlM_keeps
    (fun (_ : List Nat) (acc : Storage × Nat) => SameKinds s acc.1)
    (fun kid _ before after hbefore hpass => by
      obtain ⟨w, hmodify, rfl⟩ := Option.map_eq_some_iff.mp hpass
      exact hbefore.trans (.modifyDir hmodify))
    d.subdirs (s, 0) (u, n) (.refl s) hdirs
  refine Transition.foldlM_keeps
    (fun (_ : List Nat) (acc : Storage × Nat) => SameKinds s acc.1)
    (fun kid _ before after hbefore hpass => ?_) d.subfiles (u, n) (t, m) hu hfiles
  unfold adoptSubfile at hpass
  split at hpass
  · cases hpass
  · rename_i fe hnode
    cases hpass
    exact hbefore.trans (.set hnode rfl rfl rfl)
  · rename_i de hnode
    cases hpass
    exact hbefore.trans (.set hnode rfl rfl rfl)

/-! ### Well-led maps -/

theorem WellLed.any (hled : WellLed s.mFileHashes s) : WellLed fin s where
  inside hash i hstays := hled.inside hash i ⟨hstays.1, hstays.1⟩
  no_dir hash i d hstays := hled.no_dir hash i d ⟨hstays.1, hstays.1⟩
  alone i hnode hash hash' hi hi' := hled.alone i hnode hash hash' ⟨hi.1, hi.1⟩ ⟨hi'.1, hi'.1⟩

theorem WellLed.same (hled : WellLed fin s) (hsame : SameKinds s t) : WellLed fin t := by
  have hkind : ∀ hash i n, StaysAt t.mFileHashes fin hash i → t.node i = some n →
      ∃ before, s.node i = some before ∧ before.type = n.type := by
    intro hash i n hstays hnode
    rw [hsame.map_eq] at hstays
    exact hsame.kind_eq i (hled.inside hash i hstays) n hnode
  constructor
  case inside =>
    intro hash i hstays
    rw [hsame.map_eq] at hstays
    exact (hled.inside hash i hstays).trans_le hsame.length_le
  case no_dir =>
    intro hash i d hstays hdir
    obtain ⟨before, hbefore, htype⟩ := hkind hash i _ hstays hdir
    rw [hsame.map_eq] at hstays
    cases before with
    | file fe => cases htype
    | dir e => exact hled.no_dir hash i e hstays hbefore
  case alone =>
    intro i hnode hash hash' hstays hstays'
    obtain ⟨n, hsome⟩ := Option.ne_none_iff_exists'.mp hnode
    obtain ⟨before, hbefore, -⟩ := hkind hash i n hstays hsome
    rw [hsame.map_eq] at hstays hstays'
    exact hled.alone i (by simp [hbefore]) hash hash' hstays hstays'

/-- One index is written. -/
theorem WellLed.write (hled : WellLed fin s) (hlength : s.mNodes.length ≤ t.mNodes.length)
    (hother : ∀ j, j ≠ k → t.node j = s.node j)
    (hstays : ∀ hash j, j ≠ k → StaysAt t.mFileHashes fin hash j →
      StaysAt s.mFileHashes fin hash j)
    (hself : ∀ hash, StaysAt t.mFileHashes fin hash k →
      k < t.mNodes.length ∧ ∀ d, t.node k ≠ some (.dir d))
    (honce : LedOnce t.mFileHashes fin k) : WellLed fin t := by
  constructor
  case inside =>
    intro hash i hi
    by_cases hik : i = k
    · subst hik
      exact (hself hash hi).1
    · exact (hled.inside hash i (hstays hash i hik hi)).trans_le hlength
  case no_dir =>
    intro hash i d hi
    by_cases hik : i = k
    · subst hik
      exact (hself hash hi).2 d
    · rw [hother i hik]
      exact hled.no_dir hash i d (hstays hash i hik hi)
  case alone =>
    intro i hnode hash hash' hi hi'
    by_cases hik : i = k
    · subst hik
      exact honce hash hash' hi hi'
    · rw [hother i hik] at hnode
      exact hled.alone i hnode hash hash' (hstays hash i hik hi) (hstays hash' i hik hi')

/-- A directory where no entry leads. -/
theorem WellLed.placeDir (hled : WellLed fin s) (hlength : s.mNodes.length ≤ t.mNodes.length)
    (hother : ∀ j, j ≠ k → t.node j = s.node j) (hmap : t.mFileHashes = s.mFileHashes)
    (hunled : ∀ hash, ¬ StaysAt s.mFileHashes fin hash k) : WellLed fin t := by
  refine hled.write hlength hother ?_ ?_ ?_
  · intro hash j _ hj
    rwa [hmap] at hj
  · intro hash hk
    rw [hmap] at hk
    exact absurd hk (hunled hash)
  · intro hash hash' hk
    rw [hmap] at hk
    exact absurd hk (hunled hash)

/-- A file with an entry that leads to it. -/
theorem WellLed.placeFile {fe : FileEntry} (hled : WellLed fin s)
    (hlength : s.mNodes.length ≤ t.mNodes.length) (hother : ∀ j, j ≠ k → t.node j = s.node j)
    (hnode : t.node k = some (.file fe)) (hmap : t.mFileHashes = s.mFileHashes.insert hash k)
    (honce : LedOnce (s.mFileHashes.insert hash k) fin k) : WellLed fin t := by
  refine hled.write hlength hother ?_ ?_ (hmap ▸ honce)
  · intro hash' j hj hstays
    rw [hmap] at hstays
    refine ⟨?_, hstays.2⟩
    by_cases hhash : hash = hash'
    · subst hhash
      rw [StaysAt, OrderedMap.lookup_insert_self] at hstays
      exact absurd (Option.some.inj hstays.1).symm hj
    · rw [← OrderedMap.lookup_insert_ne _ k hhash]
      exact hstays.1
  · intro hash' _
    refine ⟨lt_length_of_node hnode, fun d hdir => ?_⟩
    cases hnode.symm.trans hdir

theorem WellLed.updateFile {fname : Name} {size : Nat} {modfTime : Int} {result : Bool}
    (hled : WellLed fin s)
    (honce : hash ≠ nullHash → LedOnce (s.mFileHashes.insert hash i) fin i)
    (hupdate : s.updateFile i hash fname size modfTime = some (result, t)) : WellLed fin t := by
  obtain rfl | ⟨fe, hnode, hnodes, -, -, -, -, hmap⟩ := updateFile_cases hupdate
  · exact hled
  · have hset := node_of_set (lt_length_of_node hnode) hnodes
    by_cases hhash : hash = nullHash
    · rw [if_pos hhash] at hmap
      exact hled.same (.set hnode hnodes hmap rfl)
    · rw [if_neg hhash] at hmap
      refine hled.placeFile ?_ (fun j hj => (hset j).trans (if_neg hj)) ((hset i).trans (if_pos rfl))
        hmap (honce hhash)
      rw [hnodes, List.length_set]

theorem WellLed.updateHash {result : Bool} (hled : WellLed fin s)
    (honce : LedOnce (s.mFileHashes.insert hash i) fin i)
    (hupdate : s.updateHash i hash = some (result, t)) : WellLed fin t := by
  unfold Storage.updateHash at hupdate
  split at hupdate
  · cases hupdate
    exact hled
  · obtain ⟨u, hmodify, hupdate⟩ := Option.bind_eq_some_iff.mp hupdate
    cases hupdate
    obtain ⟨fe, hnode, rfl⟩ := modifyFile_eq_some hmodify
    have hset : ∀ j, (s.setNode i (some (.file { fe with fileHash := hash }))).node j = _ :=
      node_of_set (lt_length_of_node hnode) rfl
    exact hled.placeFile (length_setNode _).ge (fun j hj => (hset j).trans (if_neg hj))
      ((hset i).trans (if_pos rfl)) rfl honce

/-! ### Updates from a peer -/

theorem allocateNewIndex_keeps (halloc : s.allocateNewIndex = some (i, t)) :
    s.mNodes.length ≤ t.mNodes.length ∧ t.mFileHashes = s.mFileHashes := by
  obtain ⟨free, -, rfl⟩ | ⟨-, rfl⟩ := allocateNewIndex_cases halloc
  · exact ⟨le_rfl, rfl⟩
  · refine ⟨?_, rfl⟩
    rw [length_pushNode]
    exact Nat.le_succ _

/-- No entry leads to the index that a new directory gets, unless it is overwritten later. -/
def NewDirUnled (fin : OrderedMap FileHash Nat) (indx : Nat) (dirName : Name)
    (acc : Storage × OrderedMap FileHash Nat) (hash : FileHash) : Prop :=
  ∀ k u rest, subdirSlot indx dirName acc.1 acc.2 hash = some (k, u, rest) →
    acc.1.getDir k = none → ∀ hash', ¬ StaysAt acc.1.mFileHashes fin hash' k

/-- No other entry leads to the index that the entry for a file is set to, unless it is overwritten
later. -/
def FileLedOnce (fin : OrderedMap FileHash Nat) (acc : Storage × OrderedMap Name Nat)
    (f : FileEntry) : Prop :=
  ∀ k u rest, subfileSlot acc.1 acc.2 f = some (k, u, rest) →
    acc.1.getFile k = none ∨ f.fileHash ≠ nullHash →
      LedOnce (acc.1.mFileHashes.insert f.fileHash k) fin k

theorem WellLed.placeSubdir {indx : Nat} {dirName : Name}
    {acc acc' : Storage × OrderedMap FileHash Nat} (hled : WellLed fin acc.1)
    (hunled : NewDirUnled fin indx dirName acc hash)
    (hplace : placeSubdir indx dirName acc hash = some acc') : WellLed fin acc'.1 := by
  obtain ⟨s, existing⟩ := acc
  obtain ⟨⟨k, u, rest⟩, hslot, hplace⟩ := Option.bind_eq_some_iff.mp hplace
  obtain ⟨v, hmodify, hplace⟩ := Option.bind_eq_some_iff.mp hplace
  cases hplace
  have hu : WellLed fin u := by
    have hfresh := hunled k u rest hslot
    unfold subdirSlot at hslot
    split at hslot
    · cases hslot
      exact hled
    · obtain ⟨⟨index, w⟩, halloc, hslot⟩ := Option.bind_eq_some_iff.mp hslot
      obtain ⟨d, -, hslot⟩ := Option.bind_eq_some_iff.mp hslot
      obtain ⟨-, hfree, hsame, -, -⟩ := allocateNewIndex_spec halloc
      obtain ⟨hlength, hmap⟩ := allocateNewIndex_keeps halloc
      cases hslot
      refine hled.placeDir (hlength.trans_eq (length_setNode _).symm)
        (fun j hj => (node_setNode_ne _ hj).trans (hsame j)) hmap (hfresh ?_)
      rw [getDir, hfree]
  exact (hu.same (.modifyDir hmodify)).same (.of_nodes rfl rfl)

theorem WellLed.placeSubfile {indx : Nat} {f : FileEntry} {acc acc' : Storage × OrderedMap Name Nat}
    (hled : WellLed fin acc.1) (honce : FileLedOnce fin acc f)
    (hplace : placeSubfile indx acc f = some acc') : WellLed fin acc'.1 := by
  obtain ⟨s, existing⟩ := acc
  obtain ⟨⟨k, u, rest⟩, hslot, hplace⟩ := Option.bind_eq_some_iff.mp hplace
  obtain ⟨v, hmodify, hplace⟩ := Option.bind_eq_some_iff.mp hplace
  cases hplace
  have hu : WellLed fin u := by
    have hset := honce k u rest hslot
    unfold subfileSlot at hslot
    split at hslot
    · obtain ⟨⟨result, w⟩, hupdate, hslot⟩ := Option.bind_eq_some_iff.mp hslot
      cases hslot
      exact hled.updateFile (fun hhash => hset (.inr hhash)) hupdate
    · obtain ⟨⟨index, w⟩, halloc, hslot⟩ := Option.bind_eq_some_iff.mp hslot
      obtain ⟨hlt, hfree, hsame, -, -⟩ := allocateNewIndex_spec halloc
      obtain ⟨hlength, hmap⟩ := allocateNewIndex_keeps halloc
      cases hslot
      have hnone : s.getFile k = none := by
        rw [getFile, hfree]
      refine hled.placeFile (hlength.trans_eq (length_setNode _).symm)
        (fun j hj => (node_setNode_ne _ hj).trans (hsame j)) (node_setNode_self _ hlt) ?_
        (hset (.inl hnone))
      exact congrArg (·.insert f.fileHash k) hmap
  exact hu.same (.modifyDir hmodify)

/-- The loop over the hashes of the subdirectories meets `NewDirUnled`. -/
def SubdirsUnled (fin : OrderedMap FileHash Nat) (s : Storage) (indx : Nat) (dirName : Name)
    (subdirsHash : List FileHash) : Prop :=
  ∀ d existing u, s.getDir indx = some d →
    existingKids (fun kid => (s.getDir kid).map (·.dirHash)) d.subdirs = some existing →
    s.modifyDir indx (fun d => { d with subdirs := [] }) = some u →
      Transition.Along (Storage.placeSubdir indx dirName) (NewDirUnled fin indx dirName) subdirsHash
        (u, existing)

/-- The loop over the files meets `FileLedOnce`. -/
def SubfilesLedOnce (fin : OrderedMap FileHash Nat) (s : Storage) (indx : Nat)
    (subfilesArray : List FileEntry) : Prop :=
  ∀ d existing u, s.getDir indx = some d →
    existingKids (fun kid => (s.getFile kid).map (·.fileName)) d.subfiles = some existing →
    s.modifyDir indx (fun d => { d with subfiles := [] }) = some u →
      Transition.Along (Storage.placeSubfile indx) (FileLedOnce fin) subfilesArray (u, existing)

theorem SameKinds.removeSubdir (hremove : s.removeSubdir i = some t) : SameKinds s t := by
  unfold Storage.removeSubdir at hremove
  split at hremove
  · cases hremove
    exact .refl s
  · exact .recursRemove hremove

theorem SameKinds.removeSubfile (hremove : s.removeSubfile i = some t) : SameKinds s t := by
  unfold Storage.removeSubfile at hremove
  split at hremove
  · cases hremove
    exact .refl s
  · exact .deleteFileNode hremove

theorem WellLed.updateSubdirsOf {indx : Nat} {dirName : Name} {subdirsHash : List FileHash}
    (hled : WellLed fin s) (hunled : s.SubdirsUnled fin indx dirName subdirsHash)
    (hupdate : s.updateSubdirsOf indx dirName subdirsHash = some t) : WellLed fin t := by
  obtain ⟨d, hget, hupdate⟩ := Option.bind_eq_some_iff.mp hupdate
  obtain ⟨existing, hexisting, hupdate⟩ := Option.bind_eq_some_iff.mp hupdate
  obtain ⟨u, hclear, hupdate⟩ := Option.bind_eq_some_iff.mp hupdate
  obtain ⟨⟨v, rest⟩, hplaced, hremoved⟩ := Option.bind_eq_some_iff.mp hupdate
  have hv : WellLed fin v := Transition.foldlM_keeps_along
    (fun acc : Storage × OrderedMap FileHash Nat => WellLed fin acc.1)
    (fun hash before after hbefore hcondition hpass => hbefore.placeSubdir hcondition hpass)
    (hled.same (.modifyDir hclear)) (hunled d existing u hget hexisting hclear) hplaced
  exact hv.same (.foldlM (fun _ _ _ => .removeSubdir) hremoved)

theorem WellLed.updateSubfilesOf {indx : Nat} {subfilesArray : List FileEntry}
    (hled : WellLed fin s) (honce : s.SubfilesLedOnce fin indx subfilesArray)
    (hupdate : s.updateSubfilesOf indx subfilesArray = some t) : WellLed fin t := by
  obtain ⟨d, hget, hupdate⟩ := Option.bind_eq_some_iff.mp hupdate
  obtain ⟨existing, hexisting, hupdate⟩ := Option.bind_eq_some_iff.mp hupdate
  obtain ⟨u, hclear, hupdate⟩ := Option.bind_eq_some_iff.mp hupdate
  obtain ⟨⟨v, rest⟩, hplaced, hremoved⟩ := Option.bind_eq_some_iff.mp hupdate
  have hv : WellLed fin v := Transition.foldlM_keeps_along
    (fun acc : Storage × OrderedMap Name Nat => WellLed fin acc.1)
    (fun f before after hbefore hcondition hpass => hbefore.placeSubfile hcondition hpass)
    (hled.same (.modifyDir hclear)) (honce d existing u hget hexisting hclear) hplaced
  exact hv.same (.foldlM (fun _ _ _ => .removeSubfile) hremoved)

/-- What the loops of `updateDirEntry` meet, with the map as the call leaves it. -/
def DirEntryLedOnce (s : Storage) (indx : Nat) (dirName : Name) (mostRecentTime dirModtime : Int)
    (subdirsHash : List FileHash) (subfilesArray : List FileEntry) (now : Int) : Prop :=
  ∀ t, s.updateDirEntry indx dirName mostRecentTime dirModtime subdirsHash subfilesArray now =
      some (true, t) →
    ∀ u, s.modifyDir indx (fun d => { d with
        dirMostRecentTime := mostRecentTime, dirModtime := dirModtime, dirUpdateTime := now,
        dirName := dirName }) = some u →
      u.SubdirsUnled t.mFileHashes indx dirName subdirsHash ∧
      ∀ v, u.updateSubdirsOf indx dirName subdirsHash = some v →
        v.SubfilesLedOnce t.mFileHashes indx subfilesArray

theorem WellLed.updateDirEntry {indx : Nat} {dirName : Name} {mostRecentTime dirModtime now : Int}
    {subdirsHash : List FileHash} {subfilesArray : List FileEntry} {result : Bool}
    (hled : WellLed s.mFileHashes s)
    (honce : s.DirEntryLedOnce indx dirName mostRecentTime dirModtime subdirsHash subfilesArray now)
    (hupdate : s.updateDirEntry indx dirName mostRecentTime dirModtime subdirsHash subfilesArray now =
      some (result, t)) : WellLed t.mFileHashes t := by
  have hcall := hupdate
  unfold Storage.updateDirEntry at hupdate
  split at hupdate
  · cases hupdate
    exact hled
  · obtain ⟨u, hheader, hupdate⟩ := Option.bind_eq_some_iff.mp hupdate
    obtain ⟨v, hsubdirs, hupdate⟩ := Option.bind_eq_some_iff.mp hupdate
    obtain ⟨w, hsubfiles, hupdate⟩ := Option.bind_eq_some_iff.mp hupdate
    obtain ⟨x, hadopt, hupdate⟩ := Option.bind_eq_some_iff.mp hupdate
    cases hupdate
    obtain ⟨hunled, hfiles⟩ := honce t hcall u hheader
    have hu : WellLed t.mFileHashes u := hled.any.same (.modifyDir hheader)
    exact ((hu.updateSubdirsOf hunled hsubdirs).updateSubfilesOf (hfiles v hsubdirs) hsubfiles).same
      (.adoptKids hadopt)

/-! ### Loading -/

/-- A section that takes the place of a file of that hash is one too. -/
def KeepsEntry (hash : FileHash) (i : Nat) (later : LoadSection) : Prop :=
  ∀ n, later.placed = some (i, n) → ∃ fe, n = .file fe ∧ fe.fileHash = hash

/-- The sections that are read leave to every entry its place. -/
structure EntriesKept (s : Storage) (read : List LoadSection) : Prop where
  index_lt : ∀ found ∈ read, ∀ k, found.nodeIndex = some k → k < noIndex
  entries : ∀ hash i, s.mFileHashes[hash]? = some i → ∀ later ∈ read, KeepsEntry hash i later
  sections : read.Pairwise fun found later => ∀ k fe, found.placed = some (k, .file fe) →
    KeepsEntry fe.fileHash k later

theorem SameKinds.growTo (hk : k < noIndex) : SameKinds s (s.growTo k) where
  length_le := by
    rw [length_growTo hk]
    exact le_max_left _ _
  map_eq := by
    unfold Storage.growTo
    split <;> rfl
  kind_eq i _ n hnode := ⟨n, (node_growTo hk i).symm.trans hnode, rfl⟩

theorem EntriesKept.tail {found : LoadSection} {rest : List LoadSection}
    (hkept : EntriesKept s (found :: rest)) (hmap : t.mFileHashes = s.mFileHashes) :
    EntriesKept t rest where
  index_lt other hmem := hkept.index_lt other (List.mem_cons_of_mem found hmem)
  entries hash i hentry later hmem :=
    hkept.entries hash i (hmap ▸ hentry) later (List.mem_cons_of_mem found hmem)
  sections := (List.pairwise_cons.mp hkept.sections).2

theorem EntriesKept.tailFile {fe : FileEntry} {rest : List LoadSection}
    (hkept : EntriesKept s (.fileEntry k fe :: rest))
    (hmap : t.mFileHashes = s.mFileHashes.insert fe.fileHash k) : EntriesKept t rest where
  index_lt other hmem := hkept.index_lt other (List.mem_cons_of_mem _ hmem)
  entries hash i hentry later hmem := by
    rw [hmap, OrderedMap.lookup_insert] at hentry
    split at hentry
    · rename_i heq
      cases hentry
      exact heq ▸ (List.pairwise_cons.mp hkept.sections).1 later hmem k fe rfl
    · exact hkept.entries hash i hentry later (List.mem_cons_of_mem _ hmem)
  sections := (List.pairwise_cons.mp hkept.sections).2

theorem loadSections_wellLed {pos : Nat} {sections : List LoadSection} {complete : Bool}
    (hled : WellLed s.mFileHashes s)
    (hkept : s.EntriesKept (readSections pos s.mNodes.length sections))
    (hload : loadSections pos sections s = some (complete, t)) : WellLed t.mFileHashes t := by
  induction sections generalizing pos s with
  | nil =>
      cases hload
      exact hled
  | cons found rest ih =>
      unfold loadSections at hload
      unfold readSections at hkept
      split at hload
      · cases hload
        exact hled
      · rename_i hmore
        rw [if_neg hmore] at hkept
        -- the rest of the sections finds the table that the first one leaves
        have hrest : ∀ (k : Nat) (u : Storage), loadSections (pos + 1) rest u = some (complete, t) →
            u.mNodes.length = max s.mNodes.length (k + 1) → WellLed u.mFileHashes u →
            u.EntriesKept (readSections (pos + 1) (max s.mNodes.length (k + 1)) rest) →
            WellLed t.mFileHashes t := by
          intro k u hload hlength hled hkept
          rw [← hlength] at hkept
          exact ih hled hkept hload
        cases found with
        | broken =>
            cases hload
            exact hled
        | cutDirEntry k =>
            cases hload
            have hgrow : SameKinds s (s.growTo k) :=
              .growTo (hkept.index_lt _ List.mem_cons_self k rfl)
            exact hgrow.map_eq ▸ hled.same hgrow
        | fileEntry k fe =>
            have hk := hkept.index_lt _ List.mem_cons_self k rfl
            obtain ⟨u, hnode, hload⟩ := Option.bind_eq_some_iff.mp hload
            cases (loadNode_of_lt (.file fe) hk).symm.trans hnode
            have hgrow : SameKinds s (s.growTo k) := .growTo hk
            have hmap := congrArg (·.insert fe.fileHash k) hgrow.map_eq
            have hlt : k < (s.growTo k).mNodes.length := by
              rw [length_growTo hk]
              omega
            refine hrest k _ hload (length_growTo_setNode (.file fe) hk) ?_ (hkept.tailFile hmap)
            refine (hled.any.same hgrow).placeFile (length_setNode _).ge
              (fun j hj => node_setNode_ne _ hj) (node_setNode_self _ hlt) rfl ?_
            have hsame : ∀ hash, ((s.growTo k).mFileHashes.insert fe.fileHash k)[hash]? = some k →
                hash = fe.fileHash := by
              intro hash hentry
              by_contra hne
              rw [hgrow.map_eq, OrderedMap.lookup_insert_ne _ k (Ne.symm hne)] at hentry
              obtain ⟨fe', heq, hhash⟩ := hkept.entries hash k hentry _ List.mem_cons_self _ rfl
              cases heq
              exact hne hhash.symm
            exact fun hash hash' hi hi' => (hsame hash hi.1).trans (hsame hash' hi'.1).symm
        | dirEntry k de =>
            have hk := hkept.index_lt _ List.mem_cons_self k rfl
            obtain ⟨u, hnode, hload⟩ := Option.bind_eq_some_iff.mp hload
            cases (loadNode_of_lt (.dir de) hk).symm.trans hnode
            have hgrow : SameKinds s (s.growTo k) := .growTo hk
            refine hrest k _ hload (length_growTo_setNode (.dir de) hk) ?_
              (hkept.tail hgrow.map_eq)
            refine (hled.any.same hgrow).placeDir (length_setNode _).ge
              (fun j hj => node_setNode_ne _ hj) rfl fun hash hstays => ?_
            have hentry := hgrow.map_eq ▸ hstays.1
            obtain ⟨fe, heq, -⟩ := hkept.entries hash k hentry _ List.mem_cons_self _ rfl
            cases heq

/-- Entries from before a load lead into the new table, and the sections leave them their places. -/
def LoadKeepsEntries (s : Storage) : LoadedData → Prop
  | .nodes nNodes sections =>
      (∀ (hash : FileHash) (i : Nat), s.mFileHashes[hash]? = some i → i < nNodes) ∧
        s.EntriesKept (readSections 0 nNodes sections)
  | _ => True

theorem WellLed.load {data : LoadedData} {result : LoadResult} (hled : WellLed s.mFileHashes s)
    (hkeeps : s.LoadKeepsEntries data) (hload : s.load data = some (result, t)) :
    WellLed t.mFileHashes t := by
  unfold Storage.load at hload
  cases data with
  | unreadable =>
      cases hload
      exact hled.same (.of_nodes rfl rfl)
  | wrongVersion =>
      cases hload
      exact hled.same (.of_nodes rfl rfl)
  | nodes nNodes sections =>
      obtain ⟨hinside, hkept⟩ := hkeeps
      let start : Storage :=
        { s with mFreeNodes := [], mTotalFiles := 0, mTotalSize := 0,
                 mNodes := List.replicate nNodes none }
      have hlength : start.mNodes.length = nNodes := List.length_replicate
      have hempty : ∀ i, start.node i = none := by
        intro i
        rw [node, List.getElem?_replicate]
        split <;> rfl
      have hstart : WellLed start.mFileHashes start := by
        constructor
        case inside => exact fun hash i hi => (hinside hash i hi.1).trans_eq hlength.symm
        case no_dir =>
          intro hash i d _ hdir
          cases (hempty i).symm.trans hdir
        case alone => exact fun i hnode => absurd (hempty i) hnode
      have hkept' : start.EntriesKept (readSections 0 start.mNodes.length sections) := by
        rw [hlength]
        exact ⟨hkept.index_lt, hkept.entries, hkept.sections⟩
      have hread : ∀ {complete : Bool} {u : Storage},
          loadSections 0 sections start = some (complete, u) → WellLed u.mFileHashes u :=
        fun hloop => loadSections_wellLed hstart hkept' hloop
      simp only at hload
      split at hload
      · cases hload
      · rename_i u hloop
        cases hload
        exact hread hloop
      · rename_i u hloop
        obtain ⟨⟨v, errors⟩, hcheck, heq⟩ := Option.map_eq_some_iff.mp hload
        cases heq
        have hsame : SameKinds u v := .check hcheck
        exact hsame.map_eq ▸ (hread hloop).same hsame

/-! ### The search -/

/-- What a search has collected before the rest of the entries. -/
structure Collected (s : Storage) (found : FileEntry → Option Bool)
    (rest : List (FileHash × Nat)) (results : List Nat) : Prop where
  nodup : results.Nodup
  from_map : rest ⊆ s.mFileHashes.toList
  rest_nodup : (rest.map Prod.fst).Nodup
  matching : ∀ i ∈ results, ∃ hash fe, s.mFileHashes[hash]? = some i ∧ hash ∉ rest.map Prod.fst ∧
    s.node i = some (.file fe) ∧ found fe = some true

theorem Collected.skip {found : FileEntry → Option Bool} {entry : FileHash × Nat}
    {rest : List (FileHash × Nat)} {results : List Nat}
    (hcollected : s.Collected found (entry :: rest) results) : s.Collected found rest results where
  nodup := hcollected.nodup
  from_map := fun _ hmem => hcollected.from_map (List.mem_cons_of_mem entry hmem)
  rest_nodup := (List.nodup_cons.mp hcollected.rest_nodup).2
  matching i hi := by
    obtain ⟨hash, fe, hentry, hfresh, hnode⟩ := hcollected.matching i hi
    exact ⟨hash, fe, hentry, fun hmem => hfresh (List.mem_cons_of_mem _ hmem), hnode⟩

theorem Collected.pass {found : FileEntry → Option Bool} {entry : FileHash × Nat}
    {rest : List (FileHash × Nat)} {before after : List Nat} (hled : WellLed s.mFileHashes s)
    (hcollected : s.Collected found (entry :: rest) before)
    (hpass : s.searchEntry found before entry = some after) : s.Collected found rest after := by
  obtain ⟨hash, i⟩ := entry
  have hentry : s.mFileHashes[hash]? = some i :=
    (OrderedMap.mem_toList _).mp (hcollected.from_map List.mem_cons_self)
  unfold searchEntry at hpass
  split at hpass
  · cases hpass
  · cases hpass
    exact hcollected.skip
  · cases hpass
  · rename_i fe hget
    have hnode : s.node i = some (.file fe) := node_of_getElem hget
    obtain ⟨matching, hfound, rfl⟩ := Option.map_eq_some_iff.mp hpass
    cases matching with
    | false => exact hcollected.skip
    | true =>
        have hskip := hcollected.skip
        have hnot : i ∉ before := by
          intro hmem
          obtain ⟨hash', -, hentry', hfresh, -⟩ := hcollected.matching i hmem
          have heq := hled.alone i (by simp [hnode]) hash hash' ⟨hentry, hentry⟩
            ⟨hentry', hentry'⟩
          exact hfresh (heq ▸ List.mem_cons_self)
        refine ⟨?_, hskip.from_map, hskip.rest_nodup, fun j hj => ?_⟩
        · rw [if_pos rfl, ← List.concat_eq_append]
          exact hcollected.nodup.concat hnot
        · rw [if_pos rfl, List.mem_append, List.mem_singleton] at hj
          obtain hj | rfl := hj
          · exact hskip.matching j hj
          · exact ⟨hash, fe, hentry, (List.nodup_cons.mp hcollected.rest_nodup).1, hnode, hfound⟩

theorem WellLed.searchHashes {found : FileEntry → Option Bool} {results : List Nat}
    (hled : WellLed s.mFileHashes s) (hsearch : s.searchHashes found = some results) :
    results.Nodup ∧ ∀ i ∈ results, ∃ fe, s.node i = some (.file fe) ∧ found fe = some true := by
  have hend := Transition.foldlM_keeps (s.Collected found)
    (fun entry rest before after hbefore hpass => hbefore.pass hled hpass) s.mFileHashes.toList []
    results ⟨.nil, List.Subset.refl _, OrderedMap.nodup_keys_toList _, by simp⟩ hsearch
  refine ⟨hend.nodup, fun i hi => ?_⟩
  obtain ⟨hash, fe, -, -, hnode, hfound⟩ := hend.matching i hi
  exact ⟨fe, hnode, hfound⟩

/-- Every entry leads to a file, on which the query can be tried, or to nothing. -/
theorem WellLed.searchEntry_returns {found : FileEntry → Option Bool}
    (hled : WellLed s.mFileHashes s)
    (hfound : ∀ i fe, s.node i = some (.file fe) → found fe ≠ none)
    (hentry : s.mFileHashes[hash]? = some i) (results : List Nat) :
    ∃ after, s.searchEntry found results (hash, i) = some after := by
  have hget : s.mNodes[i]? = some (s.node i) := by
    rw [node, List.getElem?_eq_getElem (hled.inside hash i ⟨hentry, hentry⟩), Option.join_some]
  unfold searchEntry
  rw [hget]
  cases hnode : s.node i with
  | none => exact ⟨results, rfl⟩
  | some n =>
      cases n with
      | dir d => exact absurd hnode (hled.no_dir hash i d ⟨hentry, hentry⟩)
      | file fe =>
          obtain ⟨matching, heq⟩ := Option.ne_none_iff_exists'.mp (hfound i fe hnode)
          refine ⟨if matching then results ++ [i] else results, ?_⟩
          simp only [heq, Option.map_some]

theorem WellLed.searchHashes_returns {found : FileEntry → Option Bool}
    (hled : WellLed s.mFileHashes s)
    (hfound : ∀ i fe, s.node i = some (.file fe) → found fe ≠ none) :
    ∃ results, s.searchHashes found = some results := by
  obtain ⟨results, hsearch, -⟩ : ∃ results, s.searchHashes found = some results ∧
      [] ⊆ s.mFileHashes.toList :=
    Transition.foldlM_defined (fun rest (_ : List Nat) => rest ⊆ s.mFileHashes.toList)
      (fun entry rest before hsubset => by
        have hentry := (OrderedMap.mem_toList _).mp (hsubset List.mem_cons_self)
        obtain ⟨after, hpass⟩ := hled.searchEntry_returns hfound hentry before
        exact ⟨after, hpass, fun _ hmem => hsubset (List.mem_cons_of_mem entry hmem)⟩)
      s.mFileHashes.toList [] (List.Subset.refl _)
  exact ⟨results, hsearch⟩

/-- The results of both searches are right, and no entry leads to a directory. -/
structure SearchSound (s : Storage) : Prop where
  no_dir : ∀ (hash : FileHash) (i : Nat) (d : DirEntry), s.mFileHashes[hash]? = some i →
    s.node i ≠ some (.dir d)
  terms : ∀ terms, ∃ results, s.searchTerms terms = some results ∧ results.Nodup ∧
    ∀ i ∈ results, ∃ fe, s.node i = some (.file fe) ∧
      ∃ term ∈ terms, ∃ part, part <:+: fe.fileName ∧ RegularExpression.SameLetters part term
  expressions : ∀ exp results, s.searchBoolExp exp = some results → results.Nodup ∧
    ∀ i ∈ results, ∃ fe de, s.node i = some (.file fe) ∧
      s.node fe.parentIndex = some (.dir de) ∧ exp.eval (exprFileEntry fe de) = true
  expressions_return : ∀ exp, exp ≠ .null →
    (∀ i fe, s.node i = some (.file fe) → ∃ de, s.node fe.parentIndex = some (.dir de)) →
      ∃ results, s.searchBoolExp exp = some results

theorem WellLed.searchSound (hled : WellLed s.mFileHashes s) : s.SearchSound where
  no_dir hash i d hentry := hled.no_dir hash i d ⟨hentry, hentry⟩
  terms terms := by
    obtain ⟨results, hsearch⟩ : ∃ results, s.searchTerms terms = some results :=
      hled.searchHashes_returns fun _ _ _ => nofun
    obtain ⟨hnodup, hmatching⟩ := hled.searchHashes hsearch
    refine ⟨results, hsearch, hnodup, fun i hi => ?_⟩
    obtain ⟨fe, hnode, hfound⟩ := hmatching i hi
    obtain ⟨term, hterm, hpart⟩ := List.any_eq_true.mp (Option.some.inj hfound)
    rw [Bool.not_eq_true'] at hpart
    exact ⟨fe, hnode, term, hterm, RegularExpression.search_sameLetters hpart⟩
  expressions exp results hsearch := by
    obtain ⟨hnodup, hmatching⟩ := hled.searchHashes hsearch
    refine ⟨hnodup, fun i hi => ?_⟩
    obtain ⟨fe, hnode, hfound⟩ := hmatching i hi
    split at hfound
    · cases hfound
    · obtain ⟨de, hget, heval⟩ := Option.map_eq_some_iff.mp hfound
      exact ⟨fe, de, hnode, getDir_eq_some.mp hget, heval⟩
  expressions_return exp hexp hparents := by
    refine hled.searchHashes_returns fun i fe hnode => ?_
    obtain ⟨de, hdir⟩ := hparents i fe hnode
    rw [if_neg hexp, getDir_eq_some.mpr hdir]
    exact nofun

/-! ### Runs -/

/-- No entry of another hash leads to the index. -/
def SoleEntry (s : Storage) (i : Nat) (hash : FileHash) : Prop :=
  ∀ hash', s.mFileHashes[hash']? = some i → hash' = hash

theorem SoleEntry.ledOnce (hsole : s.SoleEntry i hash) :
    LedOnce (s.mFileHashes.insert hash i) fin i := by
  have hsame : ∀ hash', (s.mFileHashes.insert hash i)[hash']? = some i → hash' = hash := by
    intro hash' hentry
    by_contra hne
    rw [OrderedMap.lookup_insert_ne _ i (Ne.symm hne)] at hentry
    exact hne (hsole hash' hentry)
  exact fun hash' hash'' hi hi' => (hsame hash' hi.1).trans (hsame hash'' hi'.1).symm

/-- The index that the operation gives to a directory, or for which it sets an entry, is one to which
no other entry leads. -/
def KeepsLedOnce (s : Storage) : RepairOp → Prop
  | .update (.updateDirEntry indx dirName mostRecentTime dirModtime subdirsHash subfilesArray now) =>
      s.DirEntryLedOnce indx dirName mostRecentTime dirModtime subdirsHash subfilesArray now
  | .update (.updateFile fileIndex hash _ _ _) =>
      s.checkIndex fileIndex .file = true → hash ≠ nullHash → s.SoleEntry fileIndex hash
  | .update (.updateHash fileIndex hash) =>
      s.checkIndex fileIndex .file = true → s.SoleEntry fileIndex hash
  | .update (.load data) => s.LoadKeepsEntries data
  | _ => True

theorem wellLed_new : WellLed Storage.new.mFileHashes Storage.new := by
  have hempty : ∀ hash i, ¬ StaysAt Storage.new.mFileHashes Storage.new.mFileHashes hash i :=
    fun hash i hstays => by simp [StaysAt, Storage.new] at hstays
  constructor
  case inside => exact fun hash i hstays => absurd hstays (hempty hash i)
  case no_dir => exact fun hash i _ hstays => absurd hstays (hempty hash i)
  case alone => exact fun i _ hash _ hstays => absurd hstays (hempty hash i)

theorem WellLed.update {sha1sum : List UInt8 → FileHash} {op : StorageOp}
    (hled : WellLed s.mFileHashes s) (hkeeps : s.KeepsLedOnce (.update op))
    (hstep : s.step sha1sum op = some t) : WellLed t.mFileHashes t := by
  have hsame : ∀ {u : Storage}, SameKinds s u → WellLed u.mFileHashes u :=
    fun hsame => hsame.map_eq ▸ hled.same hsame
  cases op with
  | updateSubDirectoryList indx subdirs seed =>
      obtain ⟨⟨result, u⟩, hupdate, rfl⟩ := Option.map_eq_some_iff.mp hstep
      exact hsame (.updateSubDirectoryList hupdate)
  | updateSubFilesList indx subfiles =>
      obtain ⟨⟨result, newFiles, u⟩, hupdate, rfl⟩ := Option.map_eq_some_iff.mp hstep
      exact hsame (.updateSubFilesList hupdate)
  | updateDirEntry indx dirName mostRecentTime dirModtime subdirsHash subfilesArray now =>
      obtain ⟨⟨result, u⟩, hupdate, rfl⟩ := Option.map_eq_some_iff.mp hstep
      exact hled.updateDirEntry hkeeps hupdate
  | removeDirectory indx =>
      obtain ⟨⟨result, u⟩, hremove, rfl⟩ := Option.map_eq_some_iff.mp hstep
      exact hsame (.removeDirectory hremove)
  | updateFile fileIndex hash fname size modfTime =>
      obtain ⟨⟨result, u⟩, hupdate, rfl⟩ := Option.map_eq_some_iff.mp hstep
      by_cases hvalid : s.checkIndex fileIndex .file = true
      · exact hled.any.updateFile (fun hhash => (hkeeps hvalid hhash).ledOnce) hupdate
      · simp only [Storage.updateFile, hvalid, Bool.not_false, if_true] at hupdate
        cases hupdate
        exact hled
  | updateHash fileIndex hash =>
      obtain ⟨⟨result, u⟩, hupdate, rfl⟩ := Option.map_eq_some_iff.mp hstep
      by_cases hvalid : s.checkIndex fileIndex .file = true
      · exact hled.any.updateHash (hkeeps hvalid).ledOnce hupdate
      · simp only [Storage.updateHash, hvalid, Bool.not_false, if_true] at hupdate
        cases hupdate
        exact hled
  | check =>
      obtain ⟨⟨u, errors⟩, hcheck, rfl⟩ := Option.map_eq_some_iff.mp hstep
      exact hsame (.check hcheck)
  | load data =>
      obtain ⟨⟨result, u⟩, hload, rfl⟩ := Option.map_eq_some_iff.mp hstep
      exact hled.load hkeeps hload

/-- An entry goes. -/
theorem WellLed.erase (hled : WellLed s.mFileHashes s) (hnodes : t.mNodes = s.mNodes)
    (hmap : t.mFileHashes = s.mFileHashes.erase hash) : WellLed t.mFileHashes t := by
  have hbefore : ∀ hash' i, StaysAt t.mFileHashes t.mFileHashes hash' i →
      StaysAt s.mFileHashes s.mFileHashes hash' i := by
    intro hash' i hstays
    have hentry := hstays.1
    rw [hmap, OrderedMap.lookup_erase] at hentry
    split at hentry
    · cases hentry
    · exact ⟨hentry, hentry⟩
  have hnode := node_congr hnodes
  constructor
  case inside =>
    intro hash i hi
    rw [hnodes]
    exact hled.inside hash i (hbefore hash i hi)
  case no_dir =>
    intro hash i d hi
    rw [hnode]
    exact hled.no_dir hash i d (hbefore hash i hi)
  case alone =>
    intro i hne hash hash' hi hi'
    rw [hnode] at hne
    exact hled.alone i hne hash hash' (hbefore hash i hi) (hbefore hash' i hi')

theorem WellLed.step {sha1sum : List UInt8 → FileHash} {op : RepairOp}
    (hled : WellLed s.mFileHashes s) (hkeeps : s.KeepsLedOnce op)
    (hstep : s.stepOrRepair sha1sum op = some t) : WellLed t.mFileHashes t := by
  cases op with
  | update op => exact hled.update hkeeps hstep
  | getIndexFromDirHash hash =>
      cases hstep
      unfold getIndexFromDirHash
      split
      · exact hled
      · split
        · exact hled.same (.of_nodes rfl rfl)
        · exact hled
  | getIndexFromFileHash hash =>
      cases hstep
      unfold getIndexFromFileHash
      split
      · exact hled
      · split
        · exact hled.erase rfl rfl
        · exact hled

/-- **Searches are sound** as long as no index is given to a directory, and none gets an entry, while
another entry leads there. -/
theorem searchSound_of_reaches (sha1sum : List UInt8 → FileHash)
    (hreach : Transition.Reaches (stepOrRepair sha1sum) KeepsLedOnce Storage.new s) :
    s.SearchSound :=
  (hreach.invariant (fun s => WellLed s.mFileHashes s)
    (fun _ _ _ hled hkeeps hstep => hled.step hkeeps hstep) wellLed_new).searchSound

/-- One file in the root, which is hashed. -/
def foundFile : Storage :=
  ((Storage.new.updateSubFilesList 0
    ((∅ : OrderedMap Name FileTS).insert [97] ⟨1, 0⟩)).map (·.2.2)).getD .new

theorem length_fileHash (byte : UInt8) : (List.replicate 20 byte).length = 20 :=
  List.length_replicate

def hashedFile (byte : UInt8) (s : Storage) : Storage :=
  ((s.updateHash 1 ⟨List.replicate 20 byte, length_fileHash byte⟩).map (·.2)).getD s

theorem reaches_foundFile (sha1sum : List UInt8 → FileHash) {allowed : Storage → RepairOp → Prop}
    (hallowed : ∀ indx subfiles,
      allowed Storage.new (.update (.updateSubFilesList indx subfiles))) :
    Transition.Reaches (stepOrRepair sha1sum) allowed Storage.new foundFile :=
  (Transition.Reaches.refl Storage.new).next
    (.update (.updateSubFilesList 0 ((∅ : OrderedMap Name FileTS).insert [97] ⟨1, 0⟩)))
    (hallowed 0 _) rfl

theorem searchSound_of_reaches_hashedFile : SearchSound (hashedFile 1 foundFile) := by
  refine searchSound_of_reaches (fun _ => nullHash)
    ((reaches_foundFile (fun _ => nullHash) fun _ _ => trivial).next
      (.update (.updateHash 1 ⟨List.replicate 20 1, List.length_replicate⟩)) ?_ rfl)
  intro _ hash' hentry
  cases hentry

/-- A file that changes and is hashed again is found twice: the entry for its old hash is still
there. -/
theorem searchSound_counterexample :
    ¬ ∀ (sha1sum : List UInt8 → FileHash) (s : Storage),
      Transition.Reaches (stepOrRepair sha1sum) (fun _ _ => True) Storage.new s → s.SearchSound := by
  intro hclaim
  have hreach : Transition.Reaches (stepOrRepair fun _ => nullHash) (fun _ _ => True) Storage.new
      (hashedFile 2 (hashedFile 1 foundFile)) :=
    ((reaches_foundFile (fun _ => nullHash) fun _ _ => trivial).next
      (.update (.updateHash 1 ⟨List.replicate 20 1, List.length_replicate⟩)) trivial rfl).next
      (.update (.updateHash 1 ⟨List.replicate 20 2, List.length_replicate⟩)) trivial rfl
  obtain ⟨results, hsearch, hnodup, -⟩ := (hclaim _ _ hreach).terms [[97]]
  have htwice : (hashedFile 2 (hashedFile 1 foundFile)).searchTerms [[97]] = some [1, 1] := rfl
  cases htwice.symm.trans hsearch
  exact absurd hnodup (by decide)

end RetroShare.FileSharing.Storage
