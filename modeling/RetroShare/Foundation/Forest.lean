import Mathlib.Data.List.Perm.Basic
import Mathlib.Data.List.Perm.Subperm
import Mathlib.Logic.Function.Basic
import Mathlib.Logic.Relation

/-!
# Forests in a table

A table of leaves and branches, where a branch refers to its children by index. The table is a
forest when every entry has at most one place in the lists and no branch is below itself. Its trees
are that of a fixed root, those of the loose entries, which were taken from the lists of one branch
`top` and may be put back there, and, where the table is lax, those of entries that went astray.
-/

namespace RetroShare.Forest

inductive Entry (Index : Type)
  | leaf
  | branch (branches leaves : List Index)

abbrev Table (Index : Type) := Index → Option (Entry Index)

variable {Index : Type}

def Lists (table : Table Index) (i kid : Index) : Prop :=
  ∃ branches leaves, table i = some (.branch branches leaves) ∧ kid ∈ branches ++ leaves

/-- `j` is `i` itself or somewhere below it. -/
def Below (table : Table Index) : Index → Index → Prop := Relation.ReflTransGen (Lists table)

structure IsForest (lax : Prop) (root top : Index) (loose : List Index)
    (table : Table Index) : Prop where
  root_branch : ∃ branches leaves, table root = some (.branch branches leaves)
  branches : ∀ i branches leaves kid, table i = some (.branch branches leaves) → kid ∈ branches →
    ∃ branches' leaves', table kid = some (.branch branches' leaves')
  leaves : ∀ i branches leaves kid, table i = some (.branch branches leaves) → kid ∈ leaves →
    table kid = some .leaf
  nodup : ∀ i branches leaves, table i = some (.branch branches leaves) →
    (branches ++ leaves).Nodup
  lister_eq : ∀ i j kid, Lists table i kid → Lists table j kid → i = j
  root_free : ∀ i, ¬ Lists table i root
  loose_free : ∀ i, ∀ kid ∈ loose, ¬ Lists table i kid
  loose_present : ∀ kid ∈ loose, table kid ≠ none
  root_not_loose : root ∉ loose
  loose_nodup : loose.Nodup
  covered : ∀ kid, table kid ≠ none →
    lax ∨ kid = root ∨ kid ∈ loose ∨ ∃ i, Lists table i kid
  depth : ∃ depth : Index → Nat, (∀ i kid, Lists table i kid → depth i < depth kid) ∧
    ∀ kid ∈ loose, depth top < depth kid

variable {lax : Prop} {table table' : Table Index} {root top : Index}
  {loose loose' : List Index}

theorem Lists.lister_present {i kid : Index} (hlists : Lists table i kid) : table i ≠ none := by
  obtain ⟨branches, leaves, hentry, -⟩ := hlists
  simp [hentry]

theorem IsForest.kid_present (hforest : IsForest lax root top loose table) {i kid : Index}
    (hlists : Lists table i kid) : table kid ≠ none := by
  obtain ⟨branches, leaves, hentry, hkid⟩ := hlists
  obtain hbranch | hleaf := List.mem_append.mp hkid
  · obtain ⟨branches', leaves', hkid⟩ := hforest.branches i branches leaves kid hentry hbranch
    simp [hkid]
  · simp [hforest.leaves i branches leaves kid hentry hleaf]

/-- Nothing above an entry is below it. -/
theorem IsForest.depth_le_of_below {depth : Index → Nat}
    (hdepth : ∀ i kid, Lists table i kid → depth i < depth kid) {i j : Index}
    (hbelow : Below table i j) : depth i ≤ depth j := by
  induction hbelow with
  | refl => exact Nat.le_refl _
  | tail _ hlists ih => exact Nat.le_trans ih (Nat.le_of_lt (hdepth _ _ hlists))

/-- The branch that loose entries were taken from is not below one of them. -/
theorem IsForest.top_not_below (hforest : IsForest lax root top loose table) {kid : Index}
    (hloose : kid ∈ loose) : ¬ Below table kid top := by
  obtain ⟨depth, hdepth, htop⟩ := hforest.depth
  intro hbelow
  exact Nat.not_le_of_lt (htop kid hloose) (IsForest.depth_le_of_below hdepth hbelow)

/-- Only loose entries and the root have nothing above them. -/
theorem Below.cases_of_free {i j : Index} (hbelow : Below table i j)
    (hfree : ∀ k, ¬ Lists table k j) : j = i := by
  obtain heq | ⟨k, -, hlists⟩ := Relation.ReflTransGen.cases_tail hbelow
  · exact heq
  · exact absurd hlists (hfree k)

theorem IsForest.perm (hforest : IsForest lax root top loose table) (hperm : loose.Perm loose') :
    IsForest lax root top loose' table := by
  have hmem : ∀ kid, kid ∈ loose' ↔ kid ∈ loose := fun kid => hperm.symm.mem_iff
  obtain ⟨depth, hdepth, hbelow⟩ := hforest.depth
  exact { hforest with
    loose_free := fun i kid hkid => hforest.loose_free i kid ((hmem kid).mp hkid)
    loose_present := fun kid hkid => hforest.loose_present kid ((hmem kid).mp hkid)
    root_not_loose := fun hroot => hforest.root_not_loose ((hmem root).mp hroot)
    loose_nodup := hperm.nodup_iff.mp hforest.loose_nodup
    covered := fun kid hkid => (hforest.covered kid hkid).imp_right
      (Or.imp_right (Or.imp_left (hmem kid).mpr))
    depth := ⟨depth, hdepth, fun kid hkid => hbelow kid ((hmem kid).mp hkid)⟩ }

/-! ### The lists of one branch -/

section Relist

variable [DecidableEq Index] {branches leaves branches' leaves' : List Index}

theorem lists_update_top {i kid : Index} :
    Lists (Function.update table top (some (.branch branches' leaves'))) i kid ↔
      i = top ∧ kid ∈ branches' ++ leaves' ∨ i ≠ top ∧ Lists table i kid := by
  unfold Lists
  by_cases hi : i = top
  · subst hi
    simp
  · simp [hi]

/-- The children of `top` and the loose entries are distributed anew. -/
theorem IsForest.relist (hforest : IsForest lax root top loose table)
    (htop : table top = some (.branch branches leaves))
    (hsubperm : (branches' ++ leaves' ++ loose').Subperm (branches ++ leaves ++ loose))
    (hlax : ∀ kid ∈ branches ++ leaves ++ loose, kid ∈ branches' ++ leaves' ++ loose' ∨ lax)
    (hbranches : ∀ kid ∈ branches', ∃ bs ls, table kid = some (.branch bs ls))
    (hleaves : ∀ kid ∈ leaves', table kid = some .leaf) :
    IsForest lax root top loose' (Function.update table top (some (.branch branches' leaves'))) := by
  have hbefore : ∀ kid ∈ branches' ++ leaves' ++ loose', Lists table top kid ∨ kid ∈ loose := by
    intro kid hmem
    exact (List.mem_append.mp (hsubperm.subset hmem)).imp_left fun hkid => ⟨_, _, htop, hkid⟩
  have hafter : ∀ kid, Lists table top kid ∨ kid ∈ loose →
      kid ∈ branches' ++ leaves' ++ loose' ∨ lax := by
    rintro kid (⟨bs, ls, hentry, hkid⟩ | hkid)
    · rw [htop] at hentry
      cases hentry
      exact hlax kid (List.mem_append_left _ hkid)
    · exact hlax kid (List.mem_append_right _ hkid)
  have hdistinct : (branches' ++ leaves' ++ loose').Nodup := by
    obtain ⟨kept, hperm, hsublist⟩ := hsubperm
    refine hperm.nodup_iff.mp (hsublist.nodup ?_)
    refine List.nodup_append.mpr ⟨hforest.nodup top _ _ htop, hforest.loose_nodup, ?_⟩
    intro kid hkid other hother heq
    exact hforest.loose_free top other hother ⟨_, _, htop, heq ▸ hkid⟩
  obtain ⟨hlisted, hloose, hdisjoint⟩ := List.nodup_append.mp hdistinct
  have hlister : ∀ i kid, Lists table i kid → kid ∈ branches' ++ leaves' → i = top := by
    intro i kid hlists hkid
    obtain hbefore | hbefore := hbefore kid (List.mem_append_left _ hkid)
    · exact hforest.lister_eq i top kid hlists hbefore
    · exact absurd hlists (hforest.loose_free i kid hbefore)
  have hkind : ∀ kid branches leaves, table kid = some (.branch branches leaves) →
      ∃ bs ls, Function.update table top (some (.branch branches' leaves')) kid =
        some (.branch bs ls) := by
    intro kid bs ls hentry
    by_cases hkid : kid = top
    · exact ⟨branches', leaves', by rw [hkid, Function.update_self]⟩
    · exact ⟨bs, ls, by rw [Function.update_of_ne hkid, hentry]⟩
  have hleaf : ∀ kid, table kid = some .leaf →
      Function.update table top (some (.branch branches' leaves')) kid = some .leaf := by
    intro kid hentry
    have hkid : kid ≠ top := by
      rintro rfl
      rw [htop] at hentry
      cases hentry
    rw [Function.update_of_ne hkid, hentry]
  constructor
  case root_branch =>
    obtain ⟨bs, ls, hroot⟩ := hforest.root_branch
    exact hkind root bs ls hroot
  case branches =>
    intro i bs ls kid hentry hkid
    by_cases hi : i = top
    · rw [hi, Function.update_self] at hentry
      cases hentry
      obtain ⟨bs, ls, hkid⟩ := hbranches kid hkid
      exact hkind kid bs ls hkid
    · rw [Function.update_of_ne hi] at hentry
      obtain ⟨bs', ls', hkid⟩ := hforest.branches i bs ls kid hentry hkid
      exact hkind kid bs' ls' hkid
  case leaves =>
    intro i bs ls kid hentry hkid
    by_cases hi : i = top
    · rw [hi, Function.update_self] at hentry
      cases hentry
      exact hleaf kid (hleaves kid hkid)
    · rw [Function.update_of_ne hi] at hentry
      exact hleaf kid (hforest.leaves i bs ls kid hentry hkid)
  case nodup =>
    intro i bs ls hentry
    by_cases hi : i = top
    · rw [hi, Function.update_self] at hentry
      cases hentry
      exact hlisted
    · rw [Function.update_of_ne hi] at hentry
      exact hforest.nodup i bs ls hentry
  case lister_eq =>
    intro i j kid hi hj
    rw [lists_update_top] at hi hj
    obtain ⟨rfl, hkid⟩ | ⟨hne, hi⟩ := hi
    · obtain ⟨rfl, -⟩ | ⟨hne, hj⟩ := hj
      · rfl
      · exact absurd (hlister j kid hj hkid) hne
    · obtain ⟨rfl, hkid⟩ | ⟨-, hj⟩ := hj
      · exact absurd (hlister i kid hi hkid) hne
      · exact hforest.lister_eq i j kid hi hj
  case root_free =>
    intro i hi
    rw [lists_update_top] at hi
    obtain ⟨-, hkid⟩ | ⟨-, hi⟩ := hi
    · obtain hlists | hroot := hbefore root (List.mem_append_left _ hkid)
      · exact hforest.root_free top hlists
      · exact hforest.root_not_loose hroot
    · exact hforest.root_free i hi
  case loose_free =>
    intro i kid hkid hi
    rw [lists_update_top] at hi
    obtain ⟨-, hmem⟩ | ⟨hne, hi⟩ := hi
    · exact hdisjoint kid hmem kid hkid rfl
    · obtain hlists | hloose := hbefore kid (List.mem_append_right _ hkid)
      · exact hne (hforest.lister_eq i top kid hi hlists)
      · exact hforest.loose_free i kid hloose hi
  case loose_present =>
    intro kid hkid
    have hpresent : table kid ≠ none := by
      obtain hlists | hloose := hbefore kid (List.mem_append_right _ hkid)
      · exact hforest.kid_present hlists
      · exact hforest.loose_present kid hloose
    by_cases htop : kid = top
    · simp [htop]
    · rwa [Function.update_of_ne htop]
  case root_not_loose =>
    intro hroot
    obtain hlists | hloose := hbefore root (List.mem_append_right _ hroot)
    · exact hforest.root_free top hlists
    · exact hforest.root_not_loose hloose
  case loose_nodup => exact hloose
  case covered =>
    intro kid hpresent
    have hkid : table kid ≠ none := by
      by_cases heq : kid = top
      · simp [heq, htop]
      · rwa [Function.update_of_ne heq] at hpresent
    have hplaced : Lists table top kid ∨ kid ∈ loose → lax ∨ kid = root ∨ kid ∈ loose' ∨
        ∃ i, Lists (Function.update table top (some (.branch branches' leaves'))) i kid := by
      intro hkid
      obtain hmem | hlax := hafter kid hkid
      · obtain hmem | hmem := List.mem_append.mp hmem
        · exact .inr (.inr (.inr ⟨top, lists_update_top.mpr (.inl ⟨rfl, hmem⟩)⟩))
        · exact .inr (.inr (.inl hmem))
      · exact .inl hlax
    obtain hlax | hroot | hloose | ⟨i, hi⟩ := hforest.covered kid hkid
    · exact .inl hlax
    · exact .inr (.inl hroot)
    · exact hplaced (.inr hloose)
    · by_cases heq : i = top
      · exact hplaced (.inl (heq ▸ hi))
      · exact .inr (.inr (.inr ⟨i, lists_update_top.mpr (.inr ⟨heq, hi⟩)⟩))
  case depth =>
    obtain ⟨depth, hdepth, hbelow⟩ := hforest.depth
    have hlower : ∀ kid ∈ branches' ++ leaves' ++ loose', depth top < depth kid := by
      intro kid hkid
      exact (hbefore kid hkid).elim (hdepth top kid) (hbelow kid)
    refine ⟨depth, fun i kid hi => ?_, fun kid hkid => hlower kid (List.mem_append_right _ hkid)⟩
    rw [lists_update_top] at hi
    obtain ⟨rfl, hmem⟩ | ⟨-, hi⟩ := hi
    · exact hlower kid (List.mem_append_left _ hmem)
    · exact hdepth i kid hi

end Relist

/-! ### A new entry -/

section Fresh

variable [DecidableEq Index] {kid : Index} {entry : Entry Index}

/-- An entry without children takes a free index and is loose. -/
theorem IsForest.fresh (hforest : IsForest lax root top loose table) (htop : table top ≠ none)
    (hfree : table kid = none)
    (hentry : entry = .leaf ∨ entry = .branch [] []) :
    IsForest lax root top (kid :: loose) (Function.update table kid (some entry)) := by
  have hother : ∀ i, table i ≠ none → Function.update table kid (some entry) i = table i := by
    intro i hi
    refine Function.update_of_ne ?_ _ _
    rintro rfl
    exact hi hfree
  have hlists : ∀ i j, Lists (Function.update table kid (some entry)) i j ↔ Lists table i j := by
    intro i j
    unfold Lists
    by_cases hi : i = kid
    · subst hi
      rw [Function.update_self, hfree]
      obtain rfl | rfl := hentry <;> simp
    · rw [Function.update_of_ne hi]
  have hentry_of : ∀ i bs ls, Function.update table kid (some entry) i = some (.branch bs ls) →
      bs ++ ls = [] ∨ table i = some (.branch bs ls) := by
    intro i bs ls hi
    by_cases heq : i = kid
    · subst heq
      rw [Function.update_self] at hi
      obtain rfl | rfl := hentry <;> cases hi
      exact .inl rfl
    · rw [Function.update_of_ne heq] at hi
      exact .inr hi
  have hunlisted : ∀ i, ¬ Lists table i kid := fun i hi => hforest.kid_present hi hfree
  have hne : ∀ i, table i ≠ none → i ≠ kid := by
    rintro i hi rfl
    exact hi hfree
  constructor
  case root_branch =>
    obtain ⟨bs, ls, hroot⟩ := hforest.root_branch
    exact ⟨bs, ls, (hother root (by simp [hroot])).trans hroot⟩
  case branches =>
    intro i bs ls k hi hk
    obtain hnil | hbefore := hentry_of i bs ls hi
    · simp [(List.append_eq_nil_iff.mp hnil).1] at hk
    · obtain ⟨bs', ls', hk⟩ := hforest.branches i bs ls k hbefore hk
      exact ⟨bs', ls', (hother k (by simp [hk])).trans hk⟩
  case leaves =>
    intro i bs ls k hi hk
    obtain hnil | hbefore := hentry_of i bs ls hi
    · simp [(List.append_eq_nil_iff.mp hnil).2] at hk
    · have hk := hforest.leaves i bs ls k hbefore hk
      exact (hother k (by simp [hk])).trans hk
  case nodup =>
    intro i bs ls hi
    obtain hnil | hbefore := hentry_of i bs ls hi
    · rw [hnil]
      exact List.nodup_nil
    · exact hforest.nodup i bs ls hbefore
  case lister_eq =>
    intro i j k hi hj
    exact hforest.lister_eq i j k ((hlists i k).mp hi) ((hlists j k).mp hj)
  case root_free => exact fun i hi => hforest.root_free i ((hlists i root).mp hi)
  case loose_free =>
    intro i k hk hi
    obtain rfl | hk := List.mem_cons.mp hk
    · exact hunlisted i ((hlists i _).mp hi)
    · exact hforest.loose_free i k hk ((hlists i k).mp hi)
  case loose_present =>
    intro k hk
    obtain rfl | hk := List.mem_cons.mp hk
    · simp
    · have hpresent := hforest.loose_present k hk
      rwa [hother k hpresent]
  case root_not_loose =>
    intro hroot
    obtain heq | hroot := List.mem_cons.mp hroot
    · obtain ⟨bs, ls, hbranch⟩ := hforest.root_branch
      exact hne root (by simp [hbranch]) heq
    · exact hforest.root_not_loose hroot
  case loose_nodup =>
    refine List.nodup_cons.mpr ⟨fun hmem => ?_, hforest.loose_nodup⟩
    exact hforest.loose_present kid hmem hfree
  case covered =>
    intro k hk
    by_cases heq : k = kid
    · exact .inr (.inr (.inl (heq ▸ List.mem_cons_self)))
    · rw [Function.update_of_ne heq] at hk
      obtain hlax | hroot | hloose | ⟨i, hi⟩ := hforest.covered k hk
      · exact .inl hlax
      · exact .inr (.inl hroot)
      · exact .inr (.inr (.inl (List.mem_cons_of_mem kid hloose)))
      · exact .inr (.inr (.inr ⟨i, (hlists i k).mpr hi⟩))
  case depth =>
    obtain ⟨depth, hdepth, hbelow⟩ := hforest.depth
    refine ⟨Function.update depth kid (depth top + 1), fun i k hi => ?_, fun k hk => ?_⟩
    · have hi := (hlists i k).mp hi
      rw [Function.update_of_ne (hne i hi.lister_present),
        Function.update_of_ne (hne k (hforest.kid_present hi))]
      exact hdepth i k hi
    · rw [Function.update_of_ne (hne top htop)]
      obtain rfl | hk := List.mem_cons.mp hk
      · rw [Function.update_self]
        exact Nat.lt_succ_self _
      · rw [Function.update_of_ne (hne k (hforest.loose_present k hk))]
        exact hbelow k hk

end Fresh

/-! ### A tree that is taken away -/

/-- A loose entry goes with everything below it. -/
theorem IsForest.prune {kid : Index} (hforest : IsForest lax root top loose table)
    (hloose : loose.Perm (kid :: loose')) (hgone : ∀ j, Below table kid j → table' j = none)
    (hkept : ∀ j, ¬ Below table kid j → table' j = table j) :
    IsForest lax root top loose' table' := by
  have hmem : ∀ k, k = kid ∨ k ∈ loose' → k ∈ loose := fun k hk =>
    hloose.symm.subset (List.mem_cons.mpr hk)
  have hfree := fun i => hforest.loose_free i kid (hmem kid (.inl rfl))
  obtain ⟨hnot, hnodup⟩ := List.nodup_cons.mp (hloose.nodup_iff.mp hforest.loose_nodup)
  have hbefore : ∀ i e, table' i = some e → table i = some e ∧ ¬ Below table kid i := by
    intro i e hi
    by_cases hbelow : Below table kid i
    · simp [hgone i hbelow] at hi
    · exact ⟨(hkept i hbelow).symm.trans hi, hbelow⟩
  have hlists : ∀ i k, Lists table' i k → Lists table i k ∧ ¬ Below table kid i := by
    rintro i k ⟨bs, ls, hi, hk⟩
    obtain ⟨hi, hbelow⟩ := hbefore i _ hi
    exact ⟨⟨bs, ls, hi, hk⟩, hbelow⟩
  -- an entry below the loose one has its lister there too
  have hkid : ∀ i k, Lists table i k → ¬ Below table kid i → ¬ Below table kid k := by
    intro i k hi hbelow hk
    obtain heq | ⟨j, hj, hlists⟩ := Relation.ReflTransGen.cases_tail hk
    · exact hfree i (heq ▸ hi)
    · exact hbelow (hforest.lister_eq i j k hi hlists ▸ hj)
  have hunlisted : ∀ k, k ≠ kid → (∀ i, ¬ Lists table i k) → ¬ Below table kid k := by
    intro k hne hk hbelow
    exact hne (Below.cases_of_free hbelow hk)
  constructor
  case root_branch =>
    obtain ⟨bs, ls, hroot⟩ := hforest.root_branch
    refine ⟨bs, ls, (hkept root (hunlisted root ?_ hforest.root_free)).trans hroot⟩
    rintro rfl
    exact hforest.root_not_loose (hmem _ (.inl rfl))
  case branches =>
    intro i bs ls k hi hk
    obtain ⟨hi, hbelow⟩ := hbefore i _ hi
    obtain ⟨bs', ls', hbranch⟩ := hforest.branches i bs ls k hi hk
    have hlisted : Lists table i k := ⟨bs, ls, hi, List.mem_append_left _ hk⟩
    exact ⟨bs', ls', (hkept k (hkid i k hlisted hbelow)).trans hbranch⟩
  case leaves =>
    intro i bs ls k hi hk
    obtain ⟨hi, hbelow⟩ := hbefore i _ hi
    have hlisted : Lists table i k := ⟨bs, ls, hi, List.mem_append_right _ hk⟩
    exact (hkept k (hkid i k hlisted hbelow)).trans (hforest.leaves i bs ls k hi hk)
  case nodup => exact fun i bs ls hi => hforest.nodup i bs ls (hbefore i _ hi).1
  case lister_eq =>
    exact fun i j k hi hj => hforest.lister_eq i j k (hlists i k hi).1 (hlists j k hj).1
  case root_free => exact fun i hi => hforest.root_free i (hlists i root hi).1
  case loose_free =>
    exact fun i k hk hi => hforest.loose_free i k (hmem k (.inr hk)) (hlists i k hi).1
  case loose_present =>
    intro k hk
    have hne : k ≠ kid := by
      rintro rfl
      exact hnot hk
    rw [hkept k (hunlisted k hne fun i => hforest.loose_free i k (hmem k (.inr hk)))]
    exact hforest.loose_present k (hmem k (.inr hk))
  case root_not_loose => exact fun hroot => hforest.root_not_loose (hmem root (.inr hroot))
  case loose_nodup => exact hnodup
  case covered =>
    intro k hk
    obtain ⟨e, hk⟩ := Option.ne_none_iff_exists'.mp hk
    obtain ⟨hk, hbelow⟩ := hbefore k e hk
    obtain hlax | hroot | hk | ⟨i, hi⟩ := hforest.covered k (by simp [hk])
    · exact .inl hlax
    · exact .inr (.inl hroot)
    · obtain rfl | hk := List.mem_cons.mp (hloose.subset hk)
      · exact absurd .refl hbelow
      · exact .inr (.inr (.inl hk))
    · have hlister : ¬ Below table kid i := fun hb => hbelow (hb.tail hi)
      obtain ⟨bs, ls, hi, hk⟩ := hi
      exact .inr (.inr (.inr ⟨i, bs, ls, (hkept i hlister).trans hi, hk⟩))
  case depth =>
    obtain ⟨depth, hdepth, hbelow⟩ := hforest.depth
    exact ⟨depth, fun i k hi => hdepth i k (hlists i k hi).1, fun k hk => hbelow k (hmem k (.inr hk))⟩

/-- Entries that are in no list may go; their children go astray. -/
theorem IsForest.drop (hforest : IsForest lax root top loose table)
    (hsame : ∀ i, table' i = table i ∨
      table' i = none ∧ (∀ j, ¬ Lists table j i) ∧ i ≠ root ∧ i ∉ loose)
    (hlax : ∀ i, table' i ≠ table i → lax) :
    IsForest lax root top loose table' := by
  have hbefore : ∀ i e, table' i = some e → table i = some e := by
    intro i e hi
    obtain heq | ⟨hnone, -⟩ := hsame i
    · exact heq.symm.trans hi
    · simp [hnone] at hi
  have hlists : ∀ i kid, Lists table' i kid → Lists table i kid := by
    rintro i kid ⟨bs, ls, hi, hkid⟩
    exact ⟨bs, ls, hbefore i _ hi, hkid⟩
  have hkept : ∀ i kid, Lists table i kid → table' kid = table kid := by
    intro i kid hi
    exact (hsame kid).resolve_right fun hdropped => hdropped.2.1 i hi
  constructor
  case root_branch =>
    obtain ⟨bs, ls, hroot⟩ := hforest.root_branch
    exact ⟨bs, ls, ((hsame root).resolve_right fun hdropped => hdropped.2.2.1 rfl).trans hroot⟩
  case branches =>
    intro i bs ls kid hi hkid
    have hi := hbefore i _ hi
    obtain ⟨bs', ls', hbranch⟩ := hforest.branches i bs ls kid hi hkid
    exact ⟨bs', ls', (hkept i kid ⟨bs, ls, hi, List.mem_append_left _ hkid⟩).trans hbranch⟩
  case leaves =>
    intro i bs ls kid hi hkid
    have hi := hbefore i _ hi
    exact (hkept i kid ⟨bs, ls, hi, List.mem_append_right _ hkid⟩).trans
      (hforest.leaves i bs ls kid hi hkid)
  case nodup => exact fun i bs ls hi => hforest.nodup i bs ls (hbefore i _ hi)
  case lister_eq =>
    exact fun i j kid hi hj => hforest.lister_eq i j kid (hlists i kid hi) (hlists j kid hj)
  case root_free => exact fun i hi => hforest.root_free i (hlists i root hi)
  case loose_free => exact fun i kid hkid hi => hforest.loose_free i kid hkid (hlists i kid hi)
  case loose_present =>
    intro kid hkid
    rw [(hsame kid).resolve_right fun hdropped => hdropped.2.2.2 hkid]
    exact hforest.loose_present kid hkid
  case root_not_loose => exact hforest.root_not_loose
  case loose_nodup => exact hforest.loose_nodup
  case covered =>
    intro kid hpresent
    obtain ⟨e, he⟩ := Option.ne_none_iff_exists'.mp hpresent
    have hkid := hbefore kid e he
    obtain hlax | hroot | hloose | ⟨i, bs, ls, hi, hmem⟩ := hforest.covered kid (by simp [hkid])
    · exact .inl hlax
    · exact .inr (.inl hroot)
    · exact .inr (.inr (.inl hloose))
    · by_cases hlister : table' i = table i
      · exact .inr (.inr (.inr ⟨i, bs, ls, hlister.trans hi, hmem⟩))
      · exact .inl (hlax i hlister)
  case depth =>
    obtain ⟨depth, hdepth, hbelow⟩ := hforest.depth
    exact ⟨depth, fun i kid hi => hdepth i kid (hlists i kid hi), hbelow⟩

end RetroShare.Forest
