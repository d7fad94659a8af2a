import RetroShare.FileSharing.Proof.Orphans
import RetroShare.Foundation.Forest

/-!
# The tree of the hierarchy

The table of nodes as a forest of leaves and branches: what the operations on single nodes do to it
and to the parent indices. A directory under change may have loose children, and has room for the
nodes that are still to come.
-/

namespace RetroShare.FileSharing

open Forest (Entry IsForest)

def Node.entry : Node → Entry Nat
  | file _ => .leaf
  | dir d => .branch d.subdirs d.subfiles

def Node.parentIndex : Node → Nat
  | file fe => fe.parentIndex
  | dir d => d.parentIndex

namespace Storage

variable {s t u : Storage} {i k : Nat}

def links (s : Storage) : Forest.Table Nat := fun i => (s.node i).map Node.entry

theorem links_eq_branch {branches leaves : List Nat} :
    s.links i = some (.branch branches leaves) ↔
      ∃ d, s.node i = some (.dir d) ∧ d.subdirs = branches ∧ d.subfiles = leaves := by
  unfold links
  constructor
  · intro hentry
    obtain ⟨n, hnode, hentry⟩ := Option.map_eq_some_iff.mp hentry
    cases n with
    | file fe => cases hentry
    | dir d =>
        cases hentry
        exact ⟨d, hnode, rfl, rfl⟩
  · rintro ⟨d, hnode, rfl, rfl⟩
    rw [hnode]
    rfl

theorem links_eq_leaf : s.links i = some .leaf ↔ ∃ fe, s.node i = some (.file fe) := by
  unfold links
  constructor
  · intro hentry
    obtain ⟨n, hnode, hentry⟩ := Option.map_eq_some_iff.mp hentry
    cases n with
    | file fe => exact ⟨fe, hnode⟩
    | dir d => cases hentry
  · rintro ⟨fe, hnode⟩
    rw [hnode]
    rfl

theorem links_eq_none : s.links i = none ↔ s.node i = none := Option.map_eq_none_iff

theorem lists_iff : s.Lists i k ↔ Forest.Lists s.links i k := by
  constructor
  · rintro ⟨d, hnode, hkid⟩
    exact ⟨d.subdirs, d.subfiles, links_eq_branch.mpr ⟨d, hnode, rfl, rfl⟩, List.mem_append.mpr hkid⟩
  · rintro ⟨branches, leaves, hentry, hkid⟩
    obtain ⟨d, hnode, rfl, rfl⟩ := links_eq_branch.mp hentry
    exact ⟨d, hnode, List.mem_append.mp hkid⟩

theorem links_congr (hnode : ∀ i, t.node i = s.node i) : t.links = s.links := by
  funext i
  rw [links, links, hnode]

theorem links_setNode (n : Option Node) (hlt : i < s.mNodes.length) :
    (s.setNode i n).links = Function.update s.links i (n.map Node.entry) := by
  funext j
  by_cases hj : j = i
  · subst hj
    rw [links, node_setNode_self n hlt, Function.update_self]
  · rw [links, node_setNode_ne n hj, Function.update_of_ne hj, links]

/-! ### Trees with a directory under change -/

/-- The parent index of a child of a `good` directory is that of the directory. Where the tree is lax,
some nodes are in no list. -/
structure Linked (lax : Prop) (good : Nat → Prop) (indx : Nat) (loose : List Nat) (room : Nat)
    (s : Storage) : Prop where
  forest : IsForest lax 0 indx loose s.links
  parent_eq : ∀ i kid n, good i → s.Lists i kid → s.node kid = some n → n.parentIndex = i
  loose_parent : good indx → ∀ kid ∈ loose, ∀ n, s.node kid = some n → n.parentIndex = indx
  length_le : s.mNodes.length + room ≤ noIndex

variable {lax : Prop} {good good' : Nat → Prop} {indx indx' : Nat} {loose loose' : List Nat}
  {room room' : Nat}

theorem Linked.settled (hlinked : Linked lax good indx [] room s) (hgood : ∀ i, good' i → good i)
    (hroom : room' ≤ room) (indx' : Nat) : Linked lax good' indx' [] room' s where
  forest := by
    obtain ⟨depth, hdepth, -⟩ := hlinked.forest.depth
    exact { hlinked.forest with
      depth := ⟨depth, hdepth, fun _ hmem => absurd hmem List.not_mem_nil⟩ }
  parent_eq i kid n hi := hlinked.parent_eq i kid n (hgood i hi)
  loose_parent _ _ hmem := absurd hmem List.not_mem_nil
  length_le := by
    have := hlinked.length_le
    omega

theorem Linked.mono (hlinked : Linked lax good indx loose room s) (hroom : room' ≤ room) :
    Linked lax good indx loose room' s where
  forest := hlinked.forest
  parent_eq := hlinked.parent_eq
  loose_parent := hlinked.loose_parent
  length_le := by
    have := hlinked.length_le
    omega

theorem Linked.perm (hlinked : Linked lax good indx loose room s) (hperm : loose.Perm loose') :
    Linked lax good indx loose' room s where
  forest := hlinked.forest.perm hperm
  parent_eq := hlinked.parent_eq
  loose_parent hi kid hmem := hlinked.loose_parent hi kid (hperm.symm.subset hmem)
  length_le := hlinked.length_le

/-- Nodes may change in what is not their kind, their lists or their parent. -/
theorem Linked.relabel (hlinked : Linked lax good indx loose room s)
    (hlength : t.mNodes.length = s.mNodes.length)
    (hlinks : t.links = s.links)
    (hparent : ∀ i, (t.node i).map Node.parentIndex = (s.node i).map Node.parentIndex) :
    Linked lax good indx loose room t := by
  have hsame : ∀ i n, t.node i = some n →
      ∃ n', s.node i = some n' ∧ n'.parentIndex = n.parentIndex := by
    intro i n hnode
    have hi := hparent i
    rw [hnode] at hi
    obtain ⟨n', hnode', heq⟩ := Option.map_eq_some_iff.mp hi.symm
    exact ⟨n', hnode', heq⟩
  constructor
  case forest => rw [hlinks]; exact hlinked.forest
  case parent_eq =>
    intro i kid n hi hlists hnode
    obtain ⟨n', hnode', heq⟩ := hsame kid n hnode
    rw [lists_iff, hlinks, ← lists_iff] at hlists
    exact heq.symm.trans (hlinked.parent_eq i kid n' hi hlists hnode')
  case loose_parent =>
    intro hi kid hmem n hnode
    obtain ⟨n', hnode', heq⟩ := hsame kid n hnode
    exact heq.symm.trans (hlinked.loose_parent hi kid hmem n' hnode')
  case length_le => rw [hlength]; exact hlinked.length_le

theorem lists_eq (s : Storage) : s.Lists = Forest.Lists s.links := by
  funext i kid
  exact propext lists_iff

/-- The children of the directory and the loose ones are distributed anew. -/
theorem Linked.relist {d d' : DirEntry} (hlinked : Linked lax good indx loose room s)
    (hnode : s.node indx = some (.dir d))
    (hsubperm : (d'.subdirs ++ d'.subfiles ++ loose').Subperm (d.subdirs ++ d.subfiles ++ loose))
    (hlax : (d'.subdirs ++ d'.subfiles ++ loose').Perm (d.subdirs ++ d.subfiles ++ loose) ∨ lax)
    (hdirs : ∀ kid ∈ d'.subdirs, ∃ e, s.node kid = some (.dir e))
    (hfiles : ∀ kid ∈ d'.subfiles, ∃ fe, s.node kid = some (.file fe))
    (hparent : d'.parentIndex = d.parentIndex) :
    Linked lax good indx loose' room (s.setNode indx (some (.dir d'))) := by
  have hlt := lt_length_of_node hnode
  have htop : s.links indx = some (.branch d.subdirs d.subfiles) :=
    links_eq_branch.mpr ⟨d, hnode, rfl, rfl⟩
  have hlinks : (s.setNode indx (some (.dir d'))).links =
      Function.update s.links indx (some (.branch d'.subdirs d'.subfiles)) := links_setNode _ hlt
  have hsame : ∀ i n, (s.setNode indx (some (.dir d'))).node i = some n →
      ∃ n', s.node i = some n' ∧ n'.parentIndex = n.parentIndex := by
    intro i n hi
    by_cases heq : i = indx
    · rw [heq, node_setNode_self _ hlt] at hi
      cases hi
      exact ⟨.dir d, heq ▸ hnode, hparent.symm⟩
    · exact ⟨n, (node_setNode_ne _ heq).symm.trans hi, rfl⟩
  have hchild : good indx → ∀ kid ∈ d'.subdirs ++ d'.subfiles ++ loose', ∀ n,
      s.node kid = some n → n.parentIndex = indx := by
    intro hi kid hmem n hkid
    obtain hlisted | hloose := List.mem_append.mp (hsubperm.subset hmem)
    · exact hlinked.parent_eq indx kid n hi ⟨d, hnode, List.mem_append.mp hlisted⟩ hkid
    · exact hlinked.loose_parent hi kid hloose n hkid
  constructor
  case forest =>
    rw [hlinks]
    refine hlinked.forest.relist htop hsubperm
      (fun kid hmem => hlax.imp_left fun hperm => hperm.symm.subset hmem) (fun kid hmem => ?_)
      fun kid hmem => ?_
    · obtain ⟨e, he⟩ := hdirs kid hmem
      exact ⟨_, _, links_eq_branch.mpr ⟨e, he, rfl, rfl⟩⟩
    · exact links_eq_leaf.mpr (hfiles kid hmem)
  case parent_eq =>
    intro i kid n hi hlists hkid
    obtain ⟨n', hkid', heq⟩ := hsame kid n hkid
    rw [← heq]
    rw [lists_iff, hlinks, Forest.lists_update_top] at hlists
    obtain ⟨rfl, hmem⟩ | ⟨-, hlists⟩ := hlists
    · exact hchild hi kid (List.mem_append_left _ hmem) n' hkid'
    · exact hlinked.parent_eq i kid n' hi (lists_iff.mpr hlists) hkid'
  case loose_parent =>
    intro hi kid hmem n hkid
    obtain ⟨n', hkid', heq⟩ := hsame kid n hkid
    exact heq.symm.trans (hchild hi kid (List.mem_append_right _ hmem) n' hkid')
  case length_le =>
    rw [length_setNode]
    exact hlinked.length_le

theorem Linked.redistribute {d d' : DirEntry} (hlinked : Linked lax good indx loose room s)
    (hnode : s.node indx = some (.dir d))
    (hperm : (d'.subdirs ++ d'.subfiles ++ loose').Perm (d.subdirs ++ d.subfiles ++ loose))
    (hdirs : ∀ kid ∈ d'.subdirs, ∃ e, s.node kid = some (.dir e))
    (hfiles : ∀ kid ∈ d'.subfiles, ∃ fe, s.node kid = some (.file fe))
    (hparent : d'.parentIndex = d.parentIndex) :
    Linked lax good indx loose' room (s.setNode indx (some (.dir d'))) :=
  hlinked.relist hnode hperm.subperm (.inl hperm) hdirs hfiles hparent

/-- A node without children takes a free index. -/
theorem Linked.fresh {n : Node} (hlinked : Linked lax good indx loose room s)
    (htop : s.node indx ≠ none) (hfree : s.node k = none)
    (hentry : n.entry = .leaf ∨ n.entry = .branch [] []) (hparent : good indx → n.parentIndex = indx)
    (hself : t.node k = some n) (hother : ∀ j, j ≠ k → t.node j = s.node j)
    (hlength : t.mNodes.length + room' ≤ noIndex) : Linked lax good indx (k :: loose) room' t := by
  have hlinks : t.links = Function.update s.links k (some n.entry) := by
    funext j
    by_cases hj : j = k
    · rw [hj, Function.update_self, links, hself, Option.map_some]
    · rw [Function.update_of_ne hj, links, links, hother j hj]
  have hlists : ∀ i kid, t.Lists i kid → s.Lists i kid ∧ kid ≠ k := by
    intro i kid hlists
    have hi : i ≠ k := by
      rintro rfl
      obtain ⟨d, hdir, hmem⟩ := hlists
      rw [hself] at hdir
      cases hdir
      obtain hnil | hnil := hentry
      · cases hnil
      · have hnil := Entry.branch.inj hnil
        simp [hnil.1, hnil.2] at hmem
    have hbefore := hlists.congr (hother i hi).symm
    refine ⟨hbefore, ?_⟩
    rintro rfl
    exact hlinked.forest.kid_present (lists_iff.mp hbefore) (links_eq_none.mpr hfree)
  constructor
  case forest =>
    rw [hlinks]
    exact hlinked.forest.fresh (fun hnone => htop (links_eq_none.mp hnone)) (links_eq_none.mpr hfree)
      hentry
  case parent_eq =>
    intro i kid n' hi hkid hnode
    obtain ⟨hbefore, hne⟩ := hlists i kid hkid
    exact hlinked.parent_eq i kid n' hi hbefore ((hother kid hne).symm.trans hnode)
  case loose_parent =>
    intro hi kid hmem n' hnode
    by_cases hkid : kid = k
    · rw [hkid, hself] at hnode
      cases hnode
      exact hparent hi
    · exact hlinked.loose_parent hi kid ((List.mem_cons.mp hmem).resolve_left hkid) n'
        ((hother kid hkid).symm.trans hnode)
  case length_le => exact hlength

/-- A loose node goes with everything below it. -/
theorem Linked.prune (hlinked : Linked lax good indx loose room s) (hloose : loose.Perm (k :: loose'))
    (hgone : ∀ j, Relation.ReflTransGen s.Lists k j → t.node j = none)
    (hkept : ∀ j, ¬ Relation.ReflTransGen s.Lists k j → t.node j = s.node j)
    (hlength : t.mNodes.length = s.mNodes.length) : Linked lax good indx loose' room t := by
  have hbefore : ∀ i n, t.node i = some n → s.node i = some n := by
    intro i n hnode
    by_cases hbelow : Relation.ReflTransGen s.Lists k i
    · simp [hgone i hbelow] at hnode
    · exact (hkept i hbelow).symm.trans hnode
  constructor
  case forest =>
    rw [lists_eq] at hgone hkept
    refine hlinked.forest.prune hloose (fun j hj => links_eq_none.mpr (hgone j hj)) fun j hj => ?_
    rw [links, links, hkept j hj]
  case parent_eq =>
    rintro i kid n hi ⟨d, hdir, hmem⟩ hnode
    exact hlinked.parent_eq i kid n hi ⟨d, hbefore i _ hdir, hmem⟩ (hbefore kid n hnode)
  case loose_parent =>
    intro hi kid hmem n hnode
    exact hlinked.loose_parent hi kid (hloose.symm.subset (List.mem_cons_of_mem k hmem)) n
      (hbefore kid n hnode)
  case length_le =>
    rw [hlength]
    exact hlinked.length_le

theorem Linked.congr (hlinked : Linked lax good indx loose room s)
    (hlength : t.mNodes.length = s.mNodes.length) (hnode : ∀ i, t.node i = s.node i) :
    Linked lax good indx loose room t :=
  hlinked.relabel hlength (links_congr hnode) fun i => by rw [hnode]

/-! ### Children of one directory -/

theorem Linked.subdirs_dir {d : DirEntry} (hlinked : Linked lax good indx loose room s)
    (hnode : s.node i = some (.dir d)) (hmem : k ∈ d.subdirs) : ∃ e, s.node k = some (.dir e) := by
  obtain ⟨branches, leaves, hkid⟩ := hlinked.forest.branches i _ _ k
    (links_eq_branch.mpr ⟨d, hnode, rfl, rfl⟩) hmem
  obtain ⟨e, he, -⟩ := links_eq_branch.mp hkid
  exact ⟨e, he⟩

theorem Linked.subfiles_file {d : DirEntry} (hlinked : Linked lax good indx loose room s)
    (hnode : s.node i = some (.dir d)) (hmem : k ∈ d.subfiles) :
    ∃ fe, s.node k = some (.file fe) :=
  links_eq_leaf.mp (hlinked.forest.leaves i _ _ k (links_eq_branch.mpr ⟨d, hnode, rfl, rfl⟩) hmem)

open List in
/-- A loose directory goes to the end of the list. -/
theorem Linked.appendSubdir {d e : DirEntry} (hlinked : Linked lax good indx loose room s)
    (hnode : s.node indx = some (.dir d)) (hkid : s.node k = some (.dir e))
    (hloose : loose ~ k :: loose') : Linked lax good indx loose' room
      (s.setNode indx (some (.dir { d with subdirs := d.subdirs ++ [k] }))) := by
  refine hlinked.redistribute hnode ?_ ?_ (fun kid hmem => hlinked.subfiles_file hnode hmem) rfl
  · calc
      d.subdirs ++ [k] ++ d.subfiles ++ loose'
        ~ d.subdirs ++ k :: (d.subfiles ++ loose') := .of_eq (by simp)
      _ ~ d.subdirs ++ (d.subfiles ++ k :: loose') := perm_middle.symm.append_left d.subdirs
      _ ~ d.subdirs ++ (d.subfiles ++ loose) :=
          (hloose.symm.append_left d.subfiles).append_left d.subdirs
      _ ~ d.subdirs ++ d.subfiles ++ loose := .of_eq (append_assoc _ _ _).symm
  · intro kid hmem
    obtain hmem | hmem := mem_append.mp hmem
    · exact hlinked.subdirs_dir hnode hmem
    · exact ⟨e, (mem_singleton.mp hmem) ▸ hkid⟩

open List in
theorem Linked.appendSubfile {d : DirEntry} {fe : FileEntry}
    (hlinked : Linked lax good indx loose room s) (hnode : s.node indx = some (.dir d))
    (hkid : s.node k = some (.file fe)) (hloose : loose ~ k :: loose') :
    Linked lax good indx loose' room
      (s.setNode indx (some (.dir { d with subfiles := d.subfiles ++ [k] }))) := by
  refine hlinked.redistribute hnode ?_ (fun kid hmem => hlinked.subdirs_dir hnode hmem) ?_ rfl
  · calc
      d.subdirs ++ (d.subfiles ++ [k]) ++ loose'
        ~ d.subdirs ++ d.subfiles ++ k :: loose' := .of_eq (by simp)
      _ ~ d.subdirs ++ d.subfiles ++ loose := hloose.symm.append_left _
  · intro kid hmem
    obtain hmem | hmem := mem_append.mp hmem
    · exact hlinked.subfiles_file hnode hmem
    · exact ⟨fe, (mem_singleton.mp hmem) ▸ hkid⟩

open List in
/-- One subdirectory is taken out of the list. -/
theorem Linked.detachSubdir {d : DirEntry} {kids : List Nat} (hlinked : Linked lax good indx [] room s)
    (hnode : s.node indx = some (.dir d)) (hkids : k :: kids ~ d.subdirs) :
    Linked lax good indx [k] room (s.setNode indx (some (.dir { d with subdirs := kids }))) := by
  refine hlinked.redistribute hnode ?_ ?_ (fun kid hmem => hlinked.subfiles_file hnode hmem) rfl
  · calc
      kids ++ d.subfiles ++ [k] ~ k :: (kids ++ d.subfiles) := perm_append_singleton _ _
      _ ~ d.subdirs ++ d.subfiles := hkids.append_right d.subfiles
      _ ~ d.subdirs ++ d.subfiles ++ [] := .of_eq (append_nil _).symm
  · intro kid hmem
    exact hlinked.subdirs_dir hnode (hkids.subset (mem_cons_of_mem k hmem))

open List in
theorem Linked.detachSubfile {d : DirEntry} {kids : List Nat} (hlinked : Linked lax good indx [] room s)
    (hnode : s.node indx = some (.dir d)) (hkids : k :: kids ~ d.subfiles) :
    Linked lax good indx [k] room (s.setNode indx (some (.dir { d with subfiles := kids }))) := by
  refine hlinked.redistribute hnode ?_ (fun kid hmem => hlinked.subdirs_dir hnode hmem) ?_ rfl
  · calc
      d.subdirs ++ kids ++ [k] ~ k :: (d.subdirs ++ kids) := perm_append_singleton _ _
      _ ~ d.subdirs ++ k :: kids := perm_middle.symm
      _ ~ d.subdirs ++ d.subfiles := hkids.append_left d.subdirs
      _ ~ d.subdirs ++ d.subfiles ++ [] := .of_eq (append_nil _).symm
  · intro kid hmem
    exact hlinked.subfiles_file hnode (hkids.subset (mem_cons_of_mem k hmem))

/-- A loose directory is removed. -/
theorem Linked.recursRemove {depth : Nat} (hlinked : Linked lax good indx loose room s)
    (hloose : loose.Perm (k :: loose')) (hremove : Storage.recursRemove depth s k = some t) :
    Linked lax good indx loose' room t :=
  hlinked.prune hloose (fun _ hbelow => recursRemove_gone hremove hbelow)
    (recursRemove_kept hremove) (length_recursRemove hremove)

/-- A loose file goes. -/
theorem Linked.dropFile {fe : FileEntry} (hlinked : Linked lax good indx loose room s)
    (hloose : loose.Perm (k :: loose')) (hnode : s.node k = some (.file fe))
    (hgone : t.node k = none) (hkept : ∀ j, j ≠ k → t.node j = s.node j)
    (hlength : t.mNodes.length = s.mNodes.length) : Linked lax good indx loose' room t := by
  have hbelow : ∀ j, Relation.ReflTransGen s.Lists k j → j = k := by
    intro j hbelow
    obtain heq | ⟨i, ⟨d, hdir, -⟩, -⟩ := Relation.ReflTransGen.cases_head hbelow
    · exact heq.symm
    · rw [hnode] at hdir
      cases hdir
  refine hlinked.prune hloose (fun j hj => ?_) (fun j hj => hkept j ?_) hlength
  · rw [hbelow j hj, hgone]
  · rintro rfl
    exact hj .refl

theorem Linked.deleteFileNode {fe : FileEntry} (hlinked : Linked lax good indx loose room s)
    (hloose : loose.Perm (k :: loose')) (hnode : s.node k = some (.file fe))
    (hdelete : s.deleteFileNode k = some t) : Linked lax good indx loose' room t :=
  hlinked.dropFile hloose hnode (removes_deleteFileNode hdelete).2
    (fun _ hne => deleteFileNode_kept hdelete hne) (length_deleteFileNode hdelete)

/-- Nothing that is loose or listed elsewhere is below a loose node. -/
theorem Linked.not_below_loose (hlinked : Linked lax good indx (k :: loose) room s) :
    (¬ Relation.ReflTransGen s.Lists k indx) ∧
      (∀ kid, s.Lists indx kid → ¬ Relation.ReflTransGen s.Lists k kid) ∧
      ∀ kid ∈ loose, ¬ Relation.ReflTransGen s.Lists k kid := by
  have hforest := hlinked.forest
  rw [lists_eq]
  have htop := hforest.top_not_below List.mem_cons_self
  refine ⟨htop, fun kid hlists hbelow => ?_, fun kid hmem hbelow => ?_⟩
  · obtain heq | ⟨i, hi, hlister⟩ := Relation.ReflTransGen.cases_tail hbelow
    · exact hforest.loose_free indx k List.mem_cons_self (heq ▸ hlists)
    · exact htop (hforest.lister_eq i indx kid hlister hlists ▸ hi)
  · have heq := Forest.Below.cases_of_free hbelow fun i =>
      hforest.loose_free i kid (List.mem_cons_of_mem k hmem)
    exact (List.nodup_cons.mp hforest.loose_nodup).1 (heq ▸ hmem)

theorem Linked.ne_noIndex {n : Node} (hlinked : Linked lax good indx loose room s)
    (hnode : s.node k = some n) : k ≠ noIndex := by
  have hlt := lt_length_of_node hnode
  have hle := hlinked.length_le
  omega

/-! ### One node is written -/

/-- A write that keeps the kind and the lists of a node. -/
theorem links_of_set {n n' : Node} (hnode : s.node i = some n)
    (hnodes : t.mNodes = s.mNodes.set i (some n')) (hentry : n'.entry = n.entry) :
    t.links = s.links := by
  have hset : t.links = (s.setNode i (some n')).links := links_congr (node_congr hnodes)
  rw [hset, links_setNode _ (lt_length_of_node hnode)]
  refine Function.update_eq_self_iff.mpr ?_
  rw [links, hnode, Option.map_some, Option.map_some, hentry]

theorem node_of_set {n : Node} (hlt : i < s.mNodes.length)
    (hnodes : t.mNodes = s.mNodes.set i (some n)) (j : Nat) :
    t.node j = if j = i then some n else s.node j := by
  rw [node_congr (s := s.setNode i (some n)) hnodes]
  split
  · rename_i hj
    rw [hj]
    exact node_setNode_self _ hlt
  · rename_i hj
    exact node_setNode_ne _ hj

/-- A file that stays in its place. -/
theorem Linked.updateFileNode {fe fe' : FileEntry} (hlinked : Linked lax good indx loose room s)
    (hnode : s.node i = some (.file fe)) (hnodes : t.mNodes = s.mNodes.set i (some (.file fe')))
    (hparent : fe'.parentIndex = fe.parentIndex) : Linked lax good indx loose room t := by
  refine hlinked.relabel (by rw [hnodes, List.length_set]) (links_of_set hnode hnodes rfl) fun j => ?_
  rw [node_of_set (lt_length_of_node hnode) hnodes]
  split
  · rename_i hj
    rw [hj, hnode]
    exact congrArg some hparent
  · rfl

/-- A new index leads to no node, and all nodes stay. -/
theorem allocateNewIndex_spec (halloc : s.allocateNewIndex = some (k, t)) :
    k < t.mNodes.length ∧ s.node k = none ∧ (∀ j, t.node j = s.node j) ∧
      t.mNodes.length ≤ s.mNodes.length + 1 ∧ t.mDirHashes = s.mDirHashes := by
  obtain ⟨free, hget, rfl⟩ | ⟨rfl, rfl⟩ := allocateNewIndex_cases halloc
  · exact ⟨(List.getElem?_eq_some_iff.mp hget).1, node_of_getElem hget, fun _ => rfl,
      Nat.le_succ _, rfl⟩
  · refine ⟨?_, node_of_length_le le_rfl, fun j => ?_, ?_, rfl⟩
    · rw [length_pushNode]
      exact Nat.lt_succ_self _
    · by_cases hj : j = s.mNodes.length
      · rw [hj, node_of_length_le (s := s) le_rfl]
        exact node_pushNode_self (s := { s with mFreeNodes := [] }) none
      · exact node_pushNode_ne (s := { s with mFreeNodes := [] }) none hj
    · rw [length_pushNode]

/-- A node without children is put at a new index. -/
theorem Linked.allocate {n : Node} (hlinked : Linked lax good indx loose (room + 1) s)
    (htop : s.node indx ≠ none) (halloc : s.allocateNewIndex = some (k, t))
    (hentry : n.entry = .leaf ∨ n.entry = .branch [] []) (hparent : good indx → n.parentIndex = indx)
    (hnodes : u.mNodes = t.mNodes.set k (some n)) :
    Linked lax good indx (k :: loose) room u ∧ u.node k = some n ∧ s.node k = none ∧
      ∀ j, j ≠ k → u.node j = s.node j := by
  obtain ⟨hlt, hfree, hsame, hlength, -⟩ := allocateNewIndex_spec halloc
  have hset := node_of_set hlt hnodes
  have hself : u.node k = some n := (hset k).trans (if_pos rfl)
  have hother : ∀ j, j ≠ k → u.node j = s.node j := fun j hj =>
    ((hset j).trans (if_neg hj)).trans (hsame j)
  refine ⟨hlinked.fresh htop hfree hentry hparent hself hother ?_, hself, hfree, hother⟩
  rw [hnodes, List.length_set]
  have := hlinked.length_le
  omega

end Storage

end RetroShare.FileSharing
