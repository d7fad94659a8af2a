import RetroShare.FileSharing.Proof.Loading
import RetroShare.FileSharing.Proof.Orphans

/-!
# The totals in every run

The totals are right in every state of a run whose steps leave no file to the consistency check, list
no file that is kept with another size, and load only what can be loaded and counted.
-/

namespace RetroShare.FileSharing.Storage

variable {s t u : Storage} {i : Nat} {room : List Nat}

/-! ### Files that no directory lists -/

def FilesListed (s : Storage) : Prop :=
  ∀ i fe, s.node i = some (.file fe) → i ≠ 0 → ∃ dir, s.Lists dir i

def Above (s : Storage) : Nat → Nat → Prop := Relation.ReflTransGen s.Lists

/-- Neither a file nor a directory above a file is an orphan. -/
def Rooted (s : Storage) : Prop :=
  ∀ i j fe, s.node j = some (.file fe) → s.Above i j → i ≠ 0 → ∃ dir, s.Lists dir i

theorem Rooted.filesListed (hrooted : s.Rooted) : s.FilesListed :=
  fun i fe hnode hne => hrooted i i fe hnode .refl hne

theorem Rooted.shrink (hrooted : s.Rooted) (hlists : ∀ i kid, t.Lists i kid → s.Lists i kid)
    (hfiles : ∀ i fe, t.node i = some (.file fe) → s.node i = some (.file fe))
    (hleft : ∀ i kid j fe, s.node j = some (.file fe) → s.Above kid j → kid ≠ 0 →
      s.Lists i kid → t.node kid ≠ none → ∃ dir, t.Lists dir kid) : t.Rooted := by
  intro i j fe hnode habove hne
  have hfile := hfiles j fe hnode
  have habove' : s.Above i j := Relation.ReflTransGen.mono hlists _ _ habove
  obtain ⟨dir, hdir⟩ := hrooted i j fe hfile habove' hne
  refine hleft dir i j fe hfile habove' hne hdir ?_
  obtain rfl | ⟨k, hlists, -⟩ := Relation.ReflTransGen.cases_head habove
  · simp [hnode]
  · exact hlists.node_ne

/-! ### The consistency check -/

theorem Counted.check {errors : String} (hcounted : Counted room s) (hlisted : s.FilesListed)
    (hcheck : s.check = some (t, errors)) : Counted room t := by
  obtain ⟨u, hits, hscanned, -, -, hkeep⟩ := check_cases hcheck
  refine hkeep (fun i fe hnode => ?_) room hcounted
  exact hscanned.hit (by simp [hnode]) (hlisted i fe hnode)

theorem Rooted.check {errors : String} (hrooted : s.Rooted)
    (hcheck : s.check = some (t, errors)) : t.Rooted := by
  obtain ⟨u, hits, hscanned, hkept, hgone, -⟩ := check_cases hcheck
  have hnode : ∀ i n, t.node i = some n → Hit hits i ∧ u.node i = some n := by
    intro i n hsome
    by_cases hhit : Hit hits i
    · exact ⟨hhit, (hkept i hhit).symm.trans hsome⟩
    · simp [hgone i hhit] at hsome
  refine hrooted.shrink ?_ ?_ ?_
  · rintro i kid ⟨d, hdir, hmem⟩
    exact (hscanned.thins i).lists ⟨d, (hnode i _ hdir).2, hmem⟩
  · intro i fe hfile
    obtain heq | ⟨d, d', -, hdir, -⟩ := hscanned.thins i
    · exact heq.symm.trans (hnode i _ hfile).2
    · rw [(hnode i _ hfile).2] at hdir
      cases hdir
  · intro i kid j fe hfile habove hzero hlists hsome
    obtain ⟨n, hsome⟩ := Option.ne_none_iff_exists'.mp hsome
    obtain hroot | ⟨dir, -, hdir⟩ := hscanned.listed_of_hit kid (hnode kid n hsome).1
    · exact absurd hroot hzero
    · -- the first directory that lists the node is itself above the file
      have hbefore := (hscanned.thins dir).lists hdir
      have hhit : Hit hits dir :=
        hscanned.hit hbefore.node_ne (hrooted dir j fe hfile (habove.head hbefore))
      exact ⟨dir, hdir.congr (hkept dir hhit)⟩

/-! ### Removal -/

theorem Counted.recursRemove {depth dir : Nat} (hcounted : Counted room s)
    (hremove : Storage.recursRemove depth s dir = some t) : Counted room t := by
  induction depth generalizing s t dir with
  | zero => cases hremove
  | succ depth ih =>
      obtain ⟨d, u, v, w, hnode, hsubdirs, hsubfiles, hdelete, rfl⟩ := recursRemove_cases hremove
      have hu : Counted room u :=
        Transition.foldlM_keeps (fun _ u => Counted room u)
          (fun _ _ _ _ hbefore hpass => ih hbefore hpass) _ _ _ hcounted hsubdirs
      have hv : Counted room v :=
        Transition.foldlM_keeps (fun _ v => Counted room v)
          (fun _ _ _ _ hbefore hpass => hbefore.deleteFileNode hpass) _ _ _ hu hsubfiles
      have hremoves := (removes_foldlM removes_recursRemove hsubdirs).1.trans
        (removes_foldlM removes_deleteFileNode hsubfiles).1
      refine (hv.deleteNode hdelete fun fe hfile => ?_).of_eq rfl rfl rfl
      obtain heq | hnone := hremoves.node_eq dir
      · rw [heq, hnode] at hfile
        cases hfile
      · simp [hnone] at hfile

/-- The directory is taken out of its parent's list, and what is below it is deleted. -/
theorem detach_lists {place parent indx : Nat} {p : DirEntry}
    (hparent : s.node parent = some (.dir p)) (hplace : p.subdirs[place]? = some indx)
    (hremove : (s.setNode parent (some (.dir { p with
      subdirs := swapRemove p.subdirs place }))).recursRemoveDirectory indx = some t) :
    (∀ i kid, t.Lists i kid → s.Lists i kid) ∧
    (∀ i fe, t.node i = some (.file fe) → s.node i = some (.file fe)) ∧
    ∀ i kid, s.Lists i kid → t.node kid ≠ none → t.Lists i kid := by
  obtain ⟨hremoves, hgone⟩ := removes_recursRemove hremove
  have hperm := swapRemove_perm hplace
  have hself := node_setNode_self (some (.dir { p with subdirs := swapRemove p.subdirs place }))
    (lt_length_of_node hparent)
  have hother : ∀ i, i ≠ parent → (s.setNode parent (some (.dir { p with
      subdirs := swapRemove p.subdirs place }))).node i = s.node i :=
    fun i hne => node_setNode_ne _ hne
  refine ⟨?_, ?_, ?_⟩
  · rintro i kid ⟨d, hdir, hmem⟩
    obtain heq | hnone := hremoves.node_eq i
    · rw [heq] at hdir
      by_cases hi : i = parent
      · subst hi
        rw [hself] at hdir
        cases hdir
        exact ⟨p, hparent, hmem.imp_left fun hmem =>
          hperm.subset (List.mem_cons_of_mem indx hmem)⟩
      · exact ⟨d, (hother i hi).symm.trans hdir, hmem⟩
    · simp [hnone] at hdir
  · intro i fe hfile
    obtain heq | hnone := hremoves.node_eq i
    · rw [heq] at hfile
      by_cases hi : i = parent
      · subst hi
        rw [hself] at hfile
        cases hfile
      · exact (hother i hi).symm.trans hfile
    · simp [hnone] at hfile
  · rintro i kid ⟨d, hdir, hmem⟩ hleft
    have hafter : (s.setNode parent (some (.dir { p with
        subdirs := swapRemove p.subdirs place }))).Lists i kid := by
      by_cases hi : i = parent
      · subst hi
        rw [hparent] at hdir
        cases hdir
        refine ⟨_, hself, hmem.imp_left fun hmem => ?_⟩
        obtain rfl | hrest := List.mem_cons.mp (hperm.symm.subset hmem)
        · exact absurd hgone hleft
        · exact hrest
      · exact ⟨d, (hother i hi).trans hdir, hmem⟩
    obtain heq | hnone := hremoves.node_eq i
    · exact hafter.congr heq
    · exact absurd (hremoves.kids i kid hafter hnone) hleft

/-- `removeDirectory` finds the directory in its parent's list. -/
def Detaches (s : Storage) (indx : Nat) : Prop :=
  ∃ d p, s.node indx = some (.dir d) ∧ s.node d.parentIndex = some (.dir p) ∧
    indx ∈ p.subdirs ∧ indx ≠ 0

theorem Counted.removeDirectory {indx : Nat} {result : Bool} (hcounted : Counted room s)
    (hlisted : s.Detaches indx → s.FilesListed)
    (hremove : s.removeDirectory indx = some (result, t)) : Counted room t := by
  obtain ⟨-, rfl⟩ | ⟨d, p, place, u, errors, -, hroot, hnode, hparent, hplace, hrecurs, hcheck⟩ :=
    removeDirectory_cases hremove
  · exact hcounted
  · have hlisted := hlisted ⟨d, p, hnode, hparent, List.mem_of_getElem? hplace, hroot⟩
    obtain ⟨-, hfiles, hleft⟩ := detach_lists hparent hplace hrecurs
    refine Counted.check ?_ ?_ hcheck
    · have hdetached := hcounted.setNode (some (.dir { p with
        subdirs := swapRemove p.subdirs place })) (getElem_eq_of_node hparent) rfl
      exact hdetached.recursRemove hrecurs
    · intro i fe hfile hne
      obtain ⟨dir, hdir⟩ := hlisted i fe (hfiles i fe hfile) hne
      exact ⟨dir, hleft dir i hdir (by simp [hfile])⟩

theorem Rooted.removeDirectory {indx : Nat} {result : Bool} (hrooted : s.Rooted)
    (hremove : s.removeDirectory indx = some (result, t)) : t.Rooted := by
  obtain ⟨-, rfl⟩ | ⟨d, p, place, u, errors, -, -, -, hparent, hplace, hrecurs, hcheck⟩ :=
    removeDirectory_cases hremove
  · exact hrooted
  · obtain ⟨hlists, hfiles, hleft⟩ := detach_lists hparent hplace hrecurs
    refine Rooted.check (hrooted.shrink hlists hfiles ?_) hcheck
    intro i kid j fe _ _ _ hbefore hsome
    exact ⟨i, hleft i kid hbefore hsome⟩

/-! ### The list of subdirectories -/

/-- Every subdirectory of the directory has its name in the list. -/
def KeepsSubdirs (s : Storage) (indx : Nat) (subdirs : OrderedMap Name Unit) : Prop :=
  ∀ d kid entry, s.node indx = some (.dir d) → kid ∈ d.subdirs → s.node kid = some (.dir entry) →
    subdirs[entry.dirName]? ≠ none

theorem keepSubdirs_of_keeps {indx : Nat} {subdirs : OrderedMap Name Unit}
    (hkeeps : s.KeepsSubdirs indx subdirs) {passes i : Nat} {create create' : OrderedMap Name Unit}
    (hkeep : keepSubdirs indx subdirs passes i s create = some (t, create')) : t = s := by
  induction passes generalizing i create with
  | zero =>
      cases hkeep
      rfl
  | succ passes ih =>
      obtain ⟨d, hget, hkeep⟩ := Option.bind_eq_some_iff.mp hkeep
      split at hkeep
      · cases hkeep
        rfl
      · rename_i kid hkid
        obtain ⟨entry, hentry, hkeep⟩ := Option.bind_eq_some_iff.mp hkeep
        have hname := hkeeps d kid entry (getDir_eq_some.mp hget) (List.mem_of_getElem? hkid)
          (getDir_eq_some.mp hentry)
        rw [if_neg (by simpa using hname)] at hkeep
        exact ih hkeep

theorem Counted.keepSubdirs {indx : Nat} {subdirs : OrderedMap Name Unit} {passes i : Nat}
    {create create' : OrderedMap Name Unit} (hcounted : Counted room s) (hrooted : s.Rooted)
    (hkeep : keepSubdirs indx subdirs passes i s create = some (t, create')) : Counted room t := by
  induction passes generalizing s i create with
  | zero =>
      cases hkeep
      exact hcounted
  | succ passes ih =>
      obtain ⟨d, -, hkeep⟩ := Option.bind_eq_some_iff.mp hkeep
      split at hkeep
      · cases hkeep
        exact hcounted
      · obtain ⟨entry, -, hkeep⟩ := Option.bind_eq_some_iff.mp hkeep
        split at hkeep
        · obtain ⟨⟨removed, u⟩, hremove, hkeep⟩ := Option.bind_eq_some_iff.mp hkeep
          exact ih (hcounted.removeDirectory (fun _ => hrooted.filesListed) hremove)
            (hrooted.removeDirectory hremove) hkeep
        · exact ih hcounted hrooted hkeep

theorem Counted.createSubdir {sha1sum : List UInt8 → FileHash} {indx : Nat} {seed : FileHash}
    {name : Name} (hcounted : Counted room s)
    (hcreate : s.createSubdir sha1sum indx seed name = some t) : Counted room t := by
  obtain ⟨d, -, hcreate⟩ := Option.bind_eq_some_iff.mp hcreate
  obtain ⟨u, hmodify, hcreate⟩ := Option.bind_eq_some_iff.mp hcreate
  cases hcreate
  exact ((hcounted.modifyDir hmodify).pushNode _ rfl).of_eq rfl rfl rfl

theorem Counted.updateSubDirectoryList {sha1sum : List UInt8 → FileHash} {indx : Nat}
    {subdirs : OrderedMap Name Unit} {seed : FileHash} {result : Bool} (hcounted : Counted room s)
    (hlisted : s.KeepsSubdirs indx subdirs ∨ s.Rooted)
    (hupdate : s.updateSubDirectoryList sha1sum indx subdirs seed = some (result, t)) :
    Counted room t := by
  unfold Storage.updateSubDirectoryList at hupdate
  split at hupdate
  · cases hupdate
    exact hcounted
  · obtain ⟨d, -, hupdate⟩ := Option.bind_eq_some_iff.mp hupdate
    obtain ⟨⟨u, create⟩, hkeep, hupdate⟩ := Option.bind_eq_some_iff.mp hupdate
    obtain ⟨v, hloop, hupdate⟩ := Option.bind_eq_some_iff.mp hupdate
    cases hupdate
    have hu : Counted room u := by
      obtain hkeeps | hrooted := hlisted
      · rw [keepSubdirs_of_keeps hkeeps hkeep]
        exact hcounted
      · exact hcounted.keepSubdirs hrooted hkeep
    exact Transition.foldlM_keeps (fun _ v => Counted room v)
      (fun _ _ _ _ hbefore hpass => hbefore.createSubdir hpass) _ _ _ hu hloop

/-! ### The list of files -/

/-- A file that stays in the directory is listed with the size that it has. -/
def KeepsSizes (s : Storage) (indx : Nat) (subfiles : OrderedMap Name FileTS) : Prop :=
  ∀ d kid fe ts, s.node indx = some (.dir d) → kid ∈ d.subfiles → s.node kid = some (.file fe) →
    subfiles[fe.fileName]? = some ts → ts.size = fe.fileSize

theorem KeepsSizes.shrink {indx : Nat} {subfiles : OrderedMap Name FileTS}
    (hkeeps : s.KeepsSizes indx subfiles)
    (hdir : ∀ d', t.node indx = some (.dir d') →
      ∃ d, s.node indx = some (.dir d) ∧ d'.subfiles ⊆ d.subfiles)
    (hfile : ∀ kid fe, t.node kid = some (.file fe) → s.node kid = some (.file fe) ∨
      ∀ ts, subfiles[fe.fileName]? = some ts → ts.size = fe.fileSize) :
    t.KeepsSizes indx subfiles := by
  intro d' kid fe ts hnode hmem hkid hlisted
  obtain ⟨d, hbefore, hsubset⟩ := hdir d' hnode
  obtain hsame | hsize := hfile kid fe hkid
  · exact hkeeps d kid fe ts hbefore (hsubset hmem) hsame hlisted
  · exact hsize ts hlisted

theorem Counted.refreshSubfile {kid : Nat} {ts : FileTS} (hcounted : Counted room s)
    (hsize : ∀ fe, s.node kid = some (.file fe) → ts.size = fe.fileSize)
    (hrefresh : s.refreshSubfile kid ts = some t) : Counted room t := by
  obtain ⟨fe, hnode, rfl | rfl⟩ := refreshSubfile_cases hrefresh
  · exact hcounted
  · obtain ⟨hle, -, hbelow⟩ := hcounted.size_of_file hnode
    have hts := hsize fe hnode
    rw [← hts] at hle
    have hset : Counted room (s.setNode kid (some (.file { fe with
        fileHash := nullHash, fileModtime := ts.modtime, fileSize := ts.size }))) :=
      hcounted.setNode _ (getElem_eq_of_node hnode) (by rw [Node.fileSize?, Node.fileSize?, hts])
    refine hset.of_eq rfl rfl ?_
    calc
      Word.add 64 (Word.sub 64 s.mTotalSize ts.size) ts.size
        = s.mTotalSize - ts.size + ts.size := by
          rw [Word.sub_of_le hle hbelow, Word.add_of_lt (by omega)]
      _ = s.mTotalSize := Nat.sub_add_cancel hle

theorem KeepsSizes.refreshSubfile {indx kid : Nat} {subfiles : OrderedMap Name FileTS}
    {ts : FileTS} (hkeeps : s.KeepsSizes indx subfiles)
    (hlisted : ∀ fe, s.node kid = some (.file fe) → subfiles[fe.fileName]? = some ts)
    (hrefresh : s.refreshSubfile kid ts = some t) : t.KeepsSizes indx subfiles := by
  obtain ⟨fe, hnode, rfl | rfl⟩ := refreshSubfile_cases hrefresh
  · exact hkeeps
  · have hself := node_setNode_self (some (.file { fe with
      fileHash := nullHash, fileModtime := ts.modtime, fileSize := ts.size }))
      (lt_length_of_node hnode)
    refine hkeeps.shrink (fun d' hdir => ?_) fun other fe' hfile => ?_
    · by_cases hindx : indx = kid
      · subst hindx
        cases hself.symm.trans hdir
      · exact ⟨d', (node_setNode_ne _ hindx).symm.trans hdir, List.Subset.refl _⟩
    · by_cases hother : other = kid
      · subst hother
        cases hself.symm.trans hfile
        refine .inr fun ts' hts' => ?_
        rw [hlisted fe hnode] at hts'
        cases hts'
        rfl
      · exact .inl ((node_setNode_ne _ hother).symm.trans hfile)

theorem KeepsSizes.removeSubfile {indx kid place : Nat} {subfiles : OrderedMap Name FileTS}
    {d : DirEntry} (hkeeps : s.KeepsSizes indx subfiles) (hdir : s.node indx = some (.dir d))
    (hplace : d.subfiles[place]? = some kid) (hdelete : s.deleteFileNode kid = some t)
    (hmodify : t.modifyDir indx (fun d => { d with subfiles := swapRemove d.subfiles place }) =
      some u) : u.KeepsSizes indx subfiles := by
  have hremoves := (removes_deleteFileNode hdelete).1
  obtain ⟨d', hnode, rfl⟩ := modifyDir_eq_some hmodify
  have hsame : d' = d := by
    obtain heq | hnone := hremoves.node_eq indx
    · rw [heq, hdir] at hnode
      cases hnode
      rfl
    · simp [hnone] at hnode
  subst hsame
  have hself := node_setNode_self (some (.dir { d' with
    subfiles := swapRemove d'.subfiles place })) (lt_length_of_node hnode)
  refine hkeeps.shrink (fun d'' hd'' => ?_) fun other fe hfile => ?_
  · cases hself.symm.trans hd''
    exact ⟨d', hdir, fun k hmem => (swapRemove_perm hplace).subset (List.mem_cons_of_mem kid hmem)⟩
  · by_cases hother : other = indx
    · subst hother
      cases hself.symm.trans hfile
    · have hfile' := (node_setNode_ne _ hother).symm.trans hfile
      obtain heq | hnone := hremoves.node_eq other
      · exact .inl (heq.symm.trans hfile')
      · simp [hnone] at hfile'

/-- The sizes of files that may have to be created. -/
def sizesOf (files : OrderedMap Name FileTS) : List Nat := files.toList.map fun file => file.2.size

theorem sizesOf_erase_subperm (files : OrderedMap Name FileTS) (name : Name) :
    (sizesOf (files.erase name)).Subperm (sizesOf files) := by
  obtain ⟨kept, hperm, hsublist⟩ := OrderedMap.toList_erase_subperm files name
  exact ⟨_, hperm.map _, hsublist.map _⟩

theorem Counted.keepSubfiles {indx : Nat} {subfiles : OrderedMap Name FileTS} {passes i : Nat}
    {newFiles newFiles' : OrderedMap Name FileTS} (hcounted : Counted (sizesOf newFiles) s)
    (hkeeps : s.KeepsSizes indx subfiles)
    (hkeep : Storage.keepSubfiles indx subfiles passes i s newFiles = some (t, newFiles')) :
    Counted (sizesOf newFiles') t := by
  induction passes generalizing s i newFiles with
  | zero =>
      cases hkeep
      exact hcounted
  | succ passes ih =>
      obtain ⟨d, hget, hkeep⟩ := Option.bind_eq_some_iff.mp hkeep
      have hdir := getDir_eq_some.mp hget
      split at hkeep
      · cases hkeep
        exact hcounted
      · rename_i kid hplace
        obtain ⟨fe, hgetFile, hkeep⟩ := Option.bind_eq_some_iff.mp hkeep
        have hfile := getFile_eq_some.mp hgetFile
        split at hkeep
        · obtain ⟨u, hdelete, hkeep⟩ := Option.bind_eq_some_iff.mp hkeep
          obtain ⟨v, hmodify, hkeep⟩ := Option.bind_eq_some_iff.mp hkeep
          exact ih ((hcounted.deleteFileNode hdelete).modifyDir hmodify)
            (hkeeps.removeSubfile hdir hplace hdelete hmodify) hkeep
        · rename_i ts hlisted
          obtain ⟨u, hrefresh, hkeep⟩ := Option.bind_eq_some_iff.mp hkeep
          have hlisted' : ∀ fe, s.node kid = some (.file fe) → subfiles[fe.fileName]? = some ts := by
            intro fe' hfile'
            cases hfile.symm.trans hfile'
            exact hlisted
          have hsize : ∀ fe, s.node kid = some (.file fe) → ts.size = fe.fileSize :=
            fun fe hfile => hkeeps d kid fe ts hdir (List.mem_of_getElem? hplace) hfile
              (hlisted' fe hfile)
          have hcounted' := hcounted.mono (sizesOf_erase_subperm newFiles fe.fileName)
          exact ih (hcounted'.refreshSubfile hsize hrefresh)
            (hkeeps.refreshSubfile hlisted' hrefresh) hkeep

theorem Counted.updateSubFilesList {indx : Nat} {subfiles newFiles : OrderedMap Name FileTS}
    {result : Bool} (hcounted : Counted (sizesOf subfiles) s) (hkeeps : s.KeepsSizes indx subfiles)
    (hupdate : s.updateSubFilesList indx subfiles = some (result, newFiles, t)) : Counted [] t := by
  unfold Storage.updateSubFilesList at hupdate
  split at hupdate
  · cases hupdate
    exact hcounted.mono (List.nil_subperm)
  · obtain ⟨d, -, hupdate⟩ := Option.bind_eq_some_iff.mp hupdate
    obtain ⟨⟨u, create⟩, hkeep, hupdate⟩ := Option.bind_eq_some_iff.mp hupdate
    obtain ⟨v, hloop, hupdate⟩ := Option.bind_eq_some_iff.mp hupdate
    cases hupdate
    have hu := hcounted.keepSubfiles hkeeps hkeep
    exact Transition.foldlM_keeps (fun rest v => Counted (rest.map fun file : Name × FileTS => file.2.size) v)
      (fun _ _ _ _ hbefore hpass => hbefore.createSubfile hpass) _ _ _ hu hloop

/-! ### A directory from a peer -/

theorem Counted.placeSubdir {indx : Nat} {dirName : Name} {hash : FileHash}
    {existing existing' : OrderedMap FileHash Nat} (hcounted : Counted room s)
    (hplace : Storage.placeSubdir indx dirName (s, existing) hash = some (t, existing')) :
    Counted room t := by
  obtain ⟨⟨i, u, existing''⟩, hslot, hplace⟩ := Option.bind_eq_some_iff.mp hplace
  obtain ⟨v, hmodify, hplace⟩ := Option.bind_eq_some_iff.mp hplace
  cases hplace
  have hu : Counted room u := by
    unfold subdirSlot at hslot
    split at hslot
    · cases hslot
      exact hcounted
    · obtain ⟨⟨j, w⟩, halloc, hslot⟩ := Option.bind_eq_some_iff.mp hslot
      obtain ⟨d, -, hslot⟩ := Option.bind_eq_some_iff.mp hslot
      obtain ⟨hw, hget⟩ := hcounted.allocateNewIndex halloc
      cases hslot
      have hset := hw.setNode (some (.dir { DirEntry.new [] with
        dirParentPath := makePath d.dirParentPath dirName, dirHash := hash })) hget rfl
      exact hset.of_eq rfl rfl rfl
  exact (hu.modifyDir hmodify).of_eq rfl rfl rfl

theorem Counted.placeSubfile {indx : Nat} {fe : FileEntry} {existing existing' : OrderedMap Name Nat}
    (hcounted : Counted (fe.fileSize :: room) s)
    (hplace : Storage.placeSubfile indx (s, existing) fe = some (t, existing')) :
    Counted room t := by
  obtain ⟨⟨i, u, existing''⟩, hslot, hplace⟩ := Option.bind_eq_some_iff.mp hplace
  obtain ⟨v, hmodify, hplace⟩ := Option.bind_eq_some_iff.mp hplace
  cases hplace
  have hu : Counted room u := by
    unfold subfileSlot at hslot
    split at hslot
    · obtain ⟨⟨result, w⟩, hupdate, hslot⟩ := Option.bind_eq_some_iff.mp hslot
      cases hslot
      exact hcounted.updateFile hupdate
    · obtain ⟨⟨j, w⟩, halloc, hslot⟩ := Option.bind_eq_some_iff.mp hslot
      obtain ⟨hw, hget⟩ := hcounted.allocateNewIndex halloc
      cases hslot
      exact hw.addFile (.new fe.fileName fe.fileSize fe.fileModtime fe.fileHash) hget rfl rfl
        rfl rfl
  exact hu.modifyDir hmodify

theorem Counted.removeSubdir {kid : Nat} (hcounted : Counted room s)
    (hremove : s.removeSubdir kid = some t) : Counted room t := by
  unfold Storage.removeSubdir at hremove
  split at hremove
  · cases hremove
    exact hcounted
  · exact hcounted.recursRemove hremove

theorem Counted.removeSubfile {kid : Nat} (hcounted : Counted room s)
    (hremove : s.removeSubfile kid = some t) : Counted room t := by
  unfold Storage.removeSubfile at hremove
  split at hremove
  · cases hremove
    exact hcounted
  · exact hcounted.deleteFileNode hremove

theorem Counted.updateHash {hash : FileHash} {result : Bool} (hcounted : Counted room s)
    (hupdate : s.updateHash i hash = some (result, t)) : Counted room t := by
  unfold Storage.updateHash at hupdate
  split at hupdate
  · cases hupdate
    exact hcounted
  · obtain ⟨u, hmodify, hupdate⟩ := Option.bind_eq_some_iff.mp hupdate
    cases hupdate
    exact (hcounted.modifyFile hmodify fun _ _ => rfl).of_eq rfl rfl rfl

theorem Counted.adoptKids {indx : Nat} (hcounted : Counted room s)
    (hadopt : s.adoptKids indx = some t) : Counted room t := by
  obtain ⟨d, -, hadopt⟩ := Option.bind_eq_some_iff.mp hadopt
  obtain ⟨⟨u, n⟩, hdirs, hadopt⟩ := Option.bind_eq_some_iff.mp hadopt
  obtain ⟨⟨v, m⟩, hfiles, hadopt⟩ := Option.bind_eq_some_iff.mp hadopt
  cases hadopt
  have hu : Counted room u := by
    refine Transition.foldlM_keeps (fun _ (acc : Storage × Nat) => Counted room acc.1)
      (fun kid _ before after hbefore hpass => ?_) _ _ _ hcounted hdirs
    obtain ⟨w, hmodify, rfl⟩ := Option.map_eq_some_iff.mp hpass
    exact hbefore.modifyDir hmodify
  refine Transition.foldlM_keeps (fun _ (acc : Storage × Nat) => Counted room acc.1)
    (fun kid _ before after hbefore hpass => ?_) _ _ _ hu hfiles
  unfold adoptSubfile at hpass
  split at hpass
  · cases hpass
  · rename_i fe hnode
    cases hpass
    exact hbefore.setNode _ (getElem_eq_of_node hnode) rfl
  · rename_i de hnode
    cases hpass
    exact hbefore.setNode _ (getElem_eq_of_node hnode) rfl

theorem Counted.updateDirEntry {indx : Nat} {dirName : Name} {mostRecentTime dirModtime now : Int}
    {subdirsHash : List FileHash} {subfilesArray : List FileEntry} {result : Bool}
    (hcounted : Counted (subfilesArray.map FileEntry.fileSize) s)
    (hupdate : s.updateDirEntry indx dirName mostRecentTime dirModtime subdirsHash subfilesArray now =
      some (result, t)) : Counted [] t := by
  unfold Storage.updateDirEntry at hupdate
  split at hupdate
  · cases hupdate
    exact hcounted.mono List.nil_subperm
  · obtain ⟨u, hmodify, hupdate⟩ := Option.bind_eq_some_iff.mp hupdate
    obtain ⟨v, hdirs, hupdate⟩ := Option.bind_eq_some_iff.mp hupdate
    obtain ⟨w, hfiles, hupdate⟩ := Option.bind_eq_some_iff.mp hupdate
    obtain ⟨x, hadopt, hupdate⟩ := Option.bind_eq_some_iff.mp hupdate
    cases hupdate
    have hu := hcounted.modifyDir hmodify
    have hv : Counted (subfilesArray.map FileEntry.fileSize) v := by
      obtain ⟨d, -, hdirs⟩ := Option.bind_eq_some_iff.mp hdirs
      obtain ⟨existing, -, hdirs⟩ := Option.bind_eq_some_iff.mp hdirs
      obtain ⟨u', hclear, hdirs⟩ := Option.bind_eq_some_iff.mp hdirs
      obtain ⟨⟨v', existing'⟩, hplaced, hremoved⟩ := Option.bind_eq_some_iff.mp hdirs
      have hv' := Transition.foldlM_keeps
        (fun _ (acc : Storage × OrderedMap FileHash Nat) =>
          Counted (subfilesArray.map FileEntry.fileSize) acc.1)
        (fun _ _ _ _ hbefore hpass => hbefore.placeSubdir hpass) _ _ _ (hu.modifyDir hclear) hplaced
      exact Transition.foldlM_keeps (fun _ v => Counted (subfilesArray.map FileEntry.fileSize) v)
        (fun _ _ _ _ hbefore hpass => hbefore.removeSubdir hpass) _ _ _ hv' hremoved
    have hw : Counted [] w := by
      obtain ⟨d, -, hfiles⟩ := Option.bind_eq_some_iff.mp hfiles
      obtain ⟨existing, -, hfiles⟩ := Option.bind_eq_some_iff.mp hfiles
      obtain ⟨v', hclear, hfiles⟩ := Option.bind_eq_some_iff.mp hfiles
      obtain ⟨⟨w', existing'⟩, hplaced, hremoved⟩ := Option.bind_eq_some_iff.mp hfiles
      have hw' := Transition.foldlM_keeps
        (fun (rest : List FileEntry) (acc : Storage × OrderedMap Name Nat) =>
          Counted (rest.map FileEntry.fileSize) acc.1)
        (fun _ _ _ _ hbefore hpass => hbefore.placeSubfile hpass) _ _ _ (hv.modifyDir hclear)
        hplaced
      exact Transition.foldlM_keeps (fun _ w => Counted [] w)
        (fun _ _ _ _ hbefore hpass => hbefore.removeSubfile hpass) _ _ _ hw' hremoved
    exact hw.adoptKids hadopt

/-! ### A saved file -/

end Storage

def LoadedData.fileSizes : LoadedData → List Nat
  | nodes _ sections => loadSizes sections
  | _ => []

namespace Storage

/-- A file that cannot be used meets a table without files. One that is read puts nothing in the
place of a file, and unless it breaks off, it has a directory for every file. -/
def LoadKeepsTotals (s : Storage) : LoadedData → Prop
  | .unreadable | .wrongVersion => s.fileSizes = []
  | .nodes nNodes sections =>
      let read := readSections 0 nNodes sections
      (∀ found ∈ read, ∀ k, found.nodeIndex = some k → k < noIndex) ∧ NoFileReplaced read ∧
      ((∀ found ∈ read, found.placed ≠ none) →
        ∀ i fe, savedNode read i = some (.file fe) → i ≠ 0 →
          ∃ dir d, savedNode read dir = some (.dir d) ∧ (i ∈ d.subdirs ∨ i ∈ d.subfiles))

theorem counted_of_no_files {s : Storage} {room : List Nat} (hnone : s.fileSizes = [])
    (hfiles : s.mTotalFiles = 0) (hsize : s.mTotalSize = 0) (hfew : room.length < 2 ^ 32)
    (hsmall : room.sum < 2 ^ 64) : Counted room s := by
  constructor
  · rw [hfiles, hnone, List.length_nil]
  · rw [hsize, hnone, List.sum_nil]
  · rwa [hnone, List.length_nil, Nat.zero_add]
  · rwa [hnone, List.sum_nil, Nat.zero_add]

theorem counted_load {s t : Storage} {data : LoadedData} {result : LoadResult}
    (hfew : data.fileSizes.length < 2 ^ 32) (hsmall : data.fileSizes.sum < 2 ^ 64)
    (hkeeps : s.LoadKeepsTotals data) (hload : s.load data = some (result, t)) : Counted [] t := by
  cases data with
  | unreadable =>
      cases hload
      exact counted_of_no_files hkeeps rfl rfl hfew hsmall
  | wrongVersion =>
      cases hload
      exact counted_of_no_files hkeeps rfl rfl hfew hsmall
  | nodes n sections =>
      obtain ⟨hbound, hdistinct, hlisted⟩ := hkeeps
      obtain ⟨empty, hempty⟩ : ∃ empty : Storage, empty = { s with
          mNodes := List.replicate n none, mFreeNodes := [], mTotalFiles := 0, mTotalSize := 0 } :=
        ⟨_, rfl⟩
      have hlength : empty.mNodes.length = n := by rw [hempty, List.length_replicate]
      have hnode : ∀ i, empty.node i = none := by
        intro i
        rw [hempty, node, List.getElem?_replicate]
        split <;> rfl
      have hcounted : Counted (loadSizes sections) empty := by
        rw [hempty]
        refine counted_of_no_files ?_ rfl rfl hfew hsmall
        exact List.filterMap_replicate_of_none rfl
      unfold load at hload
      simp only [← hempty] at hload
      rw [← hlength] at hbound hdistinct hlisted
      have hfinal : ∀ complete u, loadSections 0 sections empty = some (complete, u) →
          Counted [] u ∧ (complete = true → u.FilesListed) := by
        intro complete u hloop
        have hloads := loadSections_loads hbound hloop
        refine ⟨hloads.counted hdistinct (fun _ _ k _ fe _ => by simp [hnode]) hcounted, ?_⟩
        intro hcomplete i fe hfile hne
        have hsaved : ∀ i, u.node i = savedNode (readSections 0 empty.mNodes.length sections) i := by
          intro i
          rw [hloads.node_eq hcomplete i, hnode, Option.or_none]
        obtain ⟨dir, d, hdir, hmem⟩ := hlisted (hloads.complete hcomplete) i fe
          ((hsaved i).symm.trans hfile) hne
        exact ⟨dir, d, (hsaved dir).trans hdir, hmem⟩
      split at hload
      · cases hload
      · rename_i u hloop
        cases hload
        exact (hfinal false _ hloop).1
      · rename_i u hloop
        obtain ⟨⟨v, errors⟩, hcheck, heq⟩ := Option.map_eq_some_iff.mp hload
        cases heq
        obtain ⟨hu, hfiles⟩ := hfinal true u hloop
        exact hu.check (hfiles rfl) hcheck

/-! ### Runs -/

end Storage

/-- The sizes that an operation brings. -/
def StorageOp.fileSizes : StorageOp → List Nat
  | updateSubFilesList _ subfiles => Storage.sizesOf subfiles
  | updateDirEntry _ _ _ _ _ subfilesArray _ => subfilesArray.map FileEntry.fileSize
  | updateFile _ _ _ size _ => [size]
  | load data => data.fileSizes
  | _ => []

namespace Storage

/-- The files of the table and those of the operation fit into the two counters. -/
def HasRoom (s : Storage) (op : StorageOp) : Prop :=
  s.fileSizes.length + op.fileSizes.length < 2 ^ 32 ∧ s.fileSizes.sum + op.fileSizes.sum < 2 ^ 64

/-- The step does not come to a place where a total is not adjusted as the table is. -/
def KeepsTotals (s : Storage) : StorageOp → Prop
  | .updateSubDirectoryList indx subdirs _ => s.KeepsSubdirs indx subdirs ∨ s.Rooted
  | .updateSubFilesList indx subfiles => s.KeepsSizes indx subfiles
  | .removeDirectory indx => s.Detaches indx → s.FilesListed
  | .check => s.FilesListed
  | .load data => s.LoadKeepsTotals data
  | _ => True

def TotalsRight (s : Storage) : Prop :=
  s.mTotalFiles = s.fileSizes.length ∧ s.mTotalSize = s.fileSizes.sum

theorem TotalsRight.counted {s : Storage} {op : StorageOp} (hright : s.TotalsRight)
    (hroom : s.HasRoom op) : Counted op.fileSizes s :=
  ⟨hright.1, hright.2, hroom.1, hroom.2⟩

theorem Counted.totalsRight {s : Storage} {room : List Nat} (hcounted : Counted room s) :
    s.TotalsRight :=
  ⟨hcounted.files_eq, hcounted.size_eq⟩

theorem TotalsRight.step {sha1sum : List UInt8 → FileHash} {s t : Storage} {op : StorageOp}
    (hright : s.TotalsRight) (hroom : s.HasRoom op) (hkeeps : s.KeepsTotals op)
    (hstep : s.step sha1sum op = some t) : t.TotalsRight := by
  have hcounted := hright.counted hroom
  cases op with
  | updateSubDirectoryList indx subdirs seed =>
      obtain ⟨⟨result, u⟩, hupdate, rfl⟩ := Option.map_eq_some_iff.mp hstep
      exact (hcounted.updateSubDirectoryList hkeeps hupdate).totalsRight
  | updateSubFilesList indx subfiles =>
      obtain ⟨⟨result, newFiles, u⟩, hupdate, rfl⟩ := Option.map_eq_some_iff.mp hstep
      exact (hcounted.updateSubFilesList hkeeps hupdate).totalsRight
  | updateDirEntry indx dirName mostRecentTime dirModtime subdirsHash subfilesArray now =>
      obtain ⟨⟨result, u⟩, hupdate, rfl⟩ := Option.map_eq_some_iff.mp hstep
      exact (hcounted.updateDirEntry hupdate).totalsRight
  | removeDirectory indx =>
      obtain ⟨⟨result, u⟩, hremove, rfl⟩ := Option.map_eq_some_iff.mp hstep
      exact (hcounted.removeDirectory hkeeps hremove).totalsRight
  | updateFile fileIndex hash fname size modfTime =>
      obtain ⟨⟨result, u⟩, hupdate, rfl⟩ := Option.map_eq_some_iff.mp hstep
      exact (hcounted.updateFile hupdate).totalsRight
  | updateHash fileIndex hash =>
      obtain ⟨⟨result, u⟩, hupdate, rfl⟩ := Option.map_eq_some_iff.mp hstep
      exact (hcounted.updateHash hupdate).totalsRight
  | check =>
      obtain ⟨⟨u, errors⟩, hcheck, rfl⟩ := Option.map_eq_some_iff.mp hstep
      exact (hcounted.check hkeeps hcheck).totalsRight
  | load data =>
      obtain ⟨⟨result, u⟩, hload, rfl⟩ := Option.map_eq_some_iff.mp hstep
      refine (counted_load ?_ ?_ hkeeps hload).totalsRight
      · exact (Nat.le_add_left _ _).trans_lt hroom.1
      · exact (Nat.le_add_left _ _).trans_lt hroom.2

/-- **The totals of the shared files.** They are those of the table in every state of a run whose
steps have room for their files and keep the totals. -/
theorem totals_of_reaches (sha1sum : List UInt8 → FileHash) {s : Storage}
    (hreach : Transition.Reaches (Storage.step sha1sum)
      (fun s op => s.HasRoom op ∧ s.KeepsTotals op) Storage.new s) :
    s.mTotalFiles = s.fileSizes.length ∧ s.mTotalSize = s.fileSizes.sum := by
  refine hreach.invariant TotalsRight ?_ ⟨rfl, rfl⟩
  intro before op after hright ⟨hroom, hkeeps⟩ hstep
  exact hright.step hroom hkeeps hstep

/-- A shared directory with one file of one byte. -/
def oneFile (size : Nat) : OrderedMap Name FileTS := (∅ : OrderedMap Name FileTS).insert [97] ⟨size, 0⟩

def withOneFile : Storage :=
  { Storage.new with
    mNodes := [some (.dir { DirEntry.new [] with subfiles := [1] }),
      some (.file { FileEntry.new [97] 1 0 nullHash with row := 1 })]
    mTotalFiles := 1
    mTotalSize := 1 }

theorem step_withOneFile (sha1sum : List UInt8 → FileHash) :
    Storage.new.step sha1sum (.updateSubFilesList 0 (oneFile 1)) = some withOneFile := by
  rfl

theorem filesListed_withOneFile : withOneFile.FilesListed := by
  intro i fe hfile hne
  match i with
  | 0 => cases hfile
  | 1 => exact ⟨0, _, rfl, .inr List.mem_cons_self⟩
  | i + 2 => cases hfile

theorem totals_of_reaches_withOneFile :
    withOneFile.mTotalFiles = withOneFile.fileSizes.length ∧
      withOneFile.mTotalSize = withOneFile.fileSizes.sum := by
  have hroom : Storage.new.HasRoom (.updateSubFilesList 0 (oneFile 1)) := by
    constructor <;> decide
  have hkeeps : Storage.new.KeepsTotals (.updateSubFilesList 0 (oneFile 1)) := by
    intro d kid fe ts hdir hmem
    cases hdir
    cases hmem
  have hroom' : withOneFile.HasRoom .check := by
    constructor <;> decide
  have hcheck : withOneFile.step (fun _ => nullHash) .check = some withOneFile := rfl
  exact totals_of_reaches (fun _ => nullHash)
    (((Transition.Reaches.refl Storage.new).tail ⟨hroom, hkeeps⟩ (step_withOneFile _)).tail
      ⟨hroom', filesListed_withOneFile⟩ hcheck)

/-- The size of the file is three in the second list, and still one in the total. -/
theorem totals_counterexample :
    ¬ ∀ (sha1sum : List UInt8 → FileHash) (s : Storage),
      Transition.Reaches (Storage.step sha1sum) HasRoom Storage.new s →
        s.mTotalFiles = s.fileSizes.length ∧ s.mTotalSize = s.fileSizes.sum := by
  intro hclaim
  let sha1sum : List UInt8 → FileHash := fun _ => nullHash
  have hsome : (withOneFile.step sha1sum (.updateSubFilesList 0 (oneFile 3))).isSome = true := rfl
  obtain ⟨resized, hstep⟩ := Option.isSome_iff_exists.mp hsome
  have htotals : (withOneFile.step sha1sum (.updateSubFilesList 0 (oneFile 3))).map
      (fun s => (s.mTotalSize, s.fileSizes.sum)) = some (1, 3) := rfl
  have hroom : Storage.new.HasRoom (.updateSubFilesList 0 (oneFile 1)) := by
    constructor <;> decide
  have hroom' : withOneFile.HasRoom (.updateSubFilesList 0 (oneFile 3)) := by
    constructor <;> decide
  have hright := (hclaim sha1sum resized
    (((Transition.Reaches.refl Storage.new).tail hroom (step_withOneFile sha1sum)).tail
      hroom' hstep)).2
  rw [hstep] at htotals
  simp only [Option.map_some, Option.some.injEq, Prod.mk.injEq] at htotals
  omega

end Storage

end RetroShare.FileSharing
