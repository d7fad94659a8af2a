import Mathlib.Order.Std
import Mathlib.Tactic
import Mathlib.Algebra.BigOperators.Intervals
import Mathlib.Algebra.Order.BigOperators.Group.List

/-!
# Ordered maps and sums over their entries

`Std.ExtTreeMap` over a linear order is the container behind every ordered associative array here.
Its lookups are in the library; what accounting arguments add is how a sum over all entries moves
when one entry is added, removed or replaced. All three follow from one fact: the entry list after
the change is a permutation of the entry list before it with that entry added or taken out.
-/

namespace RetroShare

/-- Associative arrays iterated in key order. -/
abbrev OrderedMap (K V : Type) [LinearOrder K] := Std.ExtTreeMap K V compare

namespace OrderedMap

variable {K V : Type} [LinearOrder K]

instance transCmp : Std.TransCmp (compare : K → K → Ordering) := inferInstance

/-- Pairs of numbers as keys. -/
instance (priority := 2000) transCmpPair : @Std.TransCmp (ℕ ×ₗ ℕ) (@compare _ LinearOrder.toOrd) :=
  inferInstance

theorem lookup_insert (m : OrderedMap K V) (k a : K) (v : V) :
    (m.insert k v)[a]? = if k = a then some v else m[a]? := by
  simp [Std.ExtTreeMap.getElem?_insert]

theorem lookup_insert_self (m : OrderedMap K V) (k : K) (v : V) : (m.insert k v)[k]? = some v := by
  simp

theorem lookup_insert_ne (m : OrderedMap K V) {k a : K} (v : V) (hne : k ≠ a) :
    (m.insert k v)[a]? = m[a]? := by
  simp [lookup_insert, hne]

theorem lookup_erase (m : OrderedMap K V) (k a : K) :
    (m.erase k)[a]? = if k = a then none else m[a]? := by
  simp [Std.ExtTreeMap.getElem?_erase]

theorem lookup_erase_ne (m : OrderedMap K V) {k a : K} (hne : k ≠ a) :
    (m.erase k)[a]? = m[a]? := by
  simp [lookup_erase, hne]

theorem lookup_filter (m : OrderedMap K V) (keep : K → V → Bool) (a : K) :
    (m.filter keep)[a]? = (m[a]?).filter (keep a) := by
  simp

/-- Writing back what is already there changes nothing. -/
theorem insert_lookup (m : OrderedMap K V) {k : K} {v : V} (hlookup : m[k]? = some v) :
    m.insert k v = m := by
  apply Std.ExtTreeMap.ext_getElem?
  intro a
  rw [lookup_insert]
  split
  · next h => rw [← h, hlookup]
  · rfl

theorem mem_toList (m : OrderedMap K V) {k : K} {v : V} :
    (k, v) ∈ m.toList ↔ m[k]? = some v :=
  Std.ExtTreeMap.mem_toList_iff_getElem?_eq_some

theorem nodup_keys_toList (m : OrderedMap K V) : (m.toList.map Prod.fst).Nodup := by
  rw [List.Nodup, List.pairwise_map]
  refine (Std.ExtTreeMap.distinct_keys_toList (t := m)).imp ?_
  intro a b hne heq
  exact hne (by simp [heq])

theorem nodup_toList (m : OrderedMap K V) : m.toList.Nodup :=
  List.Nodup.of_map Prod.fst (nodup_keys_toList m)

/-- Entries appear in increasing key order. -/
theorem sorted_toList (m : OrderedMap K V) :
    m.toList.Pairwise (fun a b => a.1 < b.1) := by
  refine (Std.ExtTreeMap.ordered_keys_toList (t := m)).imp ?_
  intro a b hlt
  exact compare_lt_iff_lt.mp hlt

theorem toList_perm_cons_erase (m : OrderedMap K V) {k : K} {v : V} (hlookup : m[k]? = some v) :
    m.toList.Perm ((k, v) :: (m.erase k).toList) := by
  have hfresh : (k, v) ∉ (m.erase k).toList := by
    rw [mem_toList, lookup_erase, if_pos rfl]
    exact nofun
  rw [List.perm_ext_iff_of_nodup (nodup_toList m)
    (List.nodup_cons.mpr ⟨hfresh, nodup_toList (m.erase k)⟩)]
  rintro ⟨a, u⟩
  rw [List.mem_cons, mem_toList, mem_toList, lookup_erase]
  by_cases hka : k = a
  · subst hka
    simp [hlookup, eq_comm]
  · have hak : a ≠ k := Ne.symm hka
    simp [hka, hak]

theorem toList_erase_subperm (m : OrderedMap K V) (k : K) :
    (m.erase k).toList.Subperm m.toList := by
  apply List.subperm_of_subset (nodup_toList (m.erase k))
  rintro ⟨a, u⟩ hmem
  rw [mem_toList, lookup_erase] at hmem
  split at hmem
  · cases hmem
  · exact (mem_toList m).mpr hmem

theorem erase_insert_of_absent (m : OrderedMap K V) {k : K} (v : V) (habsent : m[k]? = none) :
    (m.insert k v).erase k = m := by
  apply Std.ExtTreeMap.ext_getElem?
  intro a
  rw [lookup_erase, lookup_insert]
  by_cases hka : k = a
  · subst hka
    simp [habsent]
  · simp [hka]

theorem erase_insert (m : OrderedMap K V) (k : K) (v : V) :
    (m.insert k v).erase k = m.erase k := by
  apply Std.ExtTreeMap.ext_getElem?
  intro a
  rw [lookup_erase, lookup_erase, lookup_insert]
  by_cases hka : k = a <;> simp [hka]

/-- Inserting all entries of a map into an empty one, in any order, gives the map back. -/
theorem foldl_insert_toList (m : OrderedMap K V) :
    m.toList.foldl (fun built entry => built.insert entry.1 entry.2) ∅ = m := by
  have hlookup : ∀ (entries : List (K × V)) (built : OrderedMap K V) (k : K),
      (entries.map Prod.fst).Nodup →
        (entries.foldl (fun built entry => built.insert entry.1 entry.2) built)[k]? =
          ((entries.find? (·.1 = k)).map Prod.snd).or built[k]? := by
    intro entries
    induction entries with
    | nil => simp
    | cons entry entries ih =>
        intro built k hnodup
        rw [List.map_cons, List.nodup_cons] at hnodup
        rw [List.foldl_cons, ih _ k hnodup.2, lookup_insert, List.find?_cons]
        by_cases hkey : entry.1 = k
        · have habsent : entries.find? (·.1 = k) = none := by
            rw [List.find?_eq_none]
            intro other hother hk
            apply hnodup.1
            rw [hkey, ← of_decide_eq_true hk]
            exact List.mem_map_of_mem hother
          simp [hkey, habsent]
        · simp [hkey]
  apply Std.ExtTreeMap.ext_getElem?
  intro k
  rw [hlookup _ _ k (nodup_keys_toList m)]
  cases hfound : m.toList.find? (·.1 = k) with
  | none =>
      rw [List.find?_eq_none] at hfound
      cases hk : m[k]? with
      | none => simp
      | some v => exact absurd (hfound (k, v) ((mem_toList m).mpr hk)) (by simp)
  | some entry =>
      have hkey : entry.1 = k := by simpa using List.find?_some hfound
      have hmem := (mem_toList m).mp (List.mem_of_find?_eq_some hfound)
      rw [← hkey, hmem]
      rfl

/-- Among distinct keys none is there already. -/
theorem foldl_insertIfNew (entries : List (K × V)) : ∀ m : OrderedMap K V,
    (entries.map Prod.fst).Nodup → (∀ entry ∈ entries, entry.1 ∉ m) →
      entries.foldl (fun built entry => built.insertIfNew entry.1 entry.2) m =
        entries.foldl (fun built entry => built.insert entry.1 entry.2) m := by
  induction entries with
  | nil => exact fun _ _ _ => rfl
  | cons entry entries ih =>
      intro m hnodup hfresh
      rw [List.map_cons, List.nodup_cons] at hnodup
      have hinsert : m.insertIfNew entry.1 entry.2 = m.insert entry.1 entry.2 := by
        apply Std.ExtTreeMap.ext_getElem?
        intro key
        have habsent := hfresh entry List.mem_cons_self
        simp [Std.ExtTreeMap.getElem?_insertIfNew, Std.ExtTreeMap.getElem?_insert, habsent]
      rw [List.foldl_cons, List.foldl_cons, hinsert]
      refine ih _ hnodup.2 fun other hother hmem => ?_
      rw [Std.ExtTreeMap.mem_insert] at hmem
      cases hmem with
      | inl heq =>
          apply hnodup.1
          rw [compare_eq_iff_eq.mp heq]
          exact List.mem_map_of_mem hother
      | inr hold => exact hfresh other (List.mem_cons_of_mem _ hother) hold

theorem foldl_insertIfNew_toList (m : OrderedMap K V) :
    m.toList.foldl (fun built entry => built.insertIfNew entry.1 entry.2) ∅ = m :=
  (foldl_insertIfNew m.toList ∅ (nodup_keys_toList m)
    fun _ _ => Std.ExtTreeMap.not_mem_empty).trans (foldl_insert_toList m)

section Sum

/-- The sum of `f` over all entries. -/
def sumOver (f : K → V → Nat) (m : OrderedMap K V) : Nat :=
  (m.toList.map fun entry => f entry.1 entry.2).sum

variable (f : K → V → Nat)

@[simp]
theorem sumOver_empty : sumOver f (∅ : OrderedMap K V) = 0 := by
  rw [sumOver, Std.ExtTreeMap.toList_eq_nil_iff.mpr rfl, List.map_nil, List.sum_nil]

theorem sumOver_eq_add_erase (m : OrderedMap K V) {k : K} {v : V} (hlookup : m[k]? = some v) :
    sumOver f m = f k v + sumOver f (m.erase k) := by
  rw [sumOver, ((toList_perm_cons_erase m hlookup).map _).sum_eq]
  simp [sumOver]

theorem sumOver_insert_of_absent (m : OrderedMap K V) {k : K} (v : V) (habsent : m[k]? = none) :
    sumOver f (m.insert k v) = f k v + sumOver f m := by
  rw [sumOver_eq_add_erase f _ (lookup_insert_self m k v), erase_insert_of_absent m v habsent]

/-- Replacing a value moves the sum by the difference of the two terms. -/
theorem sumOver_insert_of_present (m : OrderedMap K V) {k : K} {u : V} (v : V)
    (hlookup : m[k]? = some u) :
    sumOver f (m.insert k v) + f k u = sumOver f m + f k v := by
  rw [sumOver_eq_add_erase f _ (lookup_insert_self m k v), erase_insert,
    sumOver_eq_add_erase f m hlookup]
  omega

theorem le_sumOver (m : OrderedMap K V) {k : K} {v : V} (hlookup : m[k]? = some v) :
    f k v ≤ sumOver f m := by
  rw [sumOver_eq_add_erase f m hlookup]
  exact Nat.le_add_right _ _

theorem sumOver_eq_zero (m : OrderedMap K V) :
    sumOver f m = 0 ↔ ∀ k v, m[k]? = some v → f k v = 0 := by
  rw [sumOver, List.sum_eq_zero_iff]
  constructor
  · intro hzero k v hlookup
    exact hzero _ (List.mem_map.mpr ⟨(k, v), (mem_toList m).mpr hlookup, rfl⟩)
  · intro hzero x hx
    obtain ⟨⟨k, v⟩, hmem, rfl⟩ := List.mem_map.mp hx
    exact hzero k v ((mem_toList m).mp hmem)

theorem sumOver_congr {g : K → V → Nat} (m : OrderedMap K V)
    (hcongr : ∀ k v, m[k]? = some v → f k v = g k v) : sumOver f m = sumOver g m := by
  refine congrArg List.sum (List.map_congr_left ?_)
  rintro ⟨k, v⟩ hmem
  exact hcongr k v ((mem_toList m).mp hmem)

/-- Over natural keys the sum can be taken key by key. -/
theorem sumOver_eq_sum_range (f : Nat → V → Nat) (bound : Nat) :
    ∀ m : OrderedMap Nat V, (∀ (k : Nat) (v : V), m[k]? = some v → k < bound) →
      sumOver f m = ∑ k ∈ Finset.range bound, (m[k]?).elim 0 (f k) := by
  induction bound with
  | zero =>
      intro m hbound
      rw [Finset.range_zero, Finset.sum_empty, sumOver_eq_zero]
      intro k v hlookup
      exact absurd (hbound k v hlookup) (Nat.not_lt_zero k)
  | succ bound ih =>
      intro m hbound
      have hbelow : ∀ (k : Nat) (v : V), (m.erase bound)[k]? = some v → k < bound := by
        intro k v hlookup
        rw [lookup_erase] at hlookup
        split at hlookup
        · exact absurd hlookup nofun
        · next hne =>
            have := hbound k v hlookup
            omega
      have hsame : ∑ k ∈ Finset.range bound, ((m.erase bound)[k]?).elim 0 (f k) =
          ∑ k ∈ Finset.range bound, (m[k]?).elim 0 (f k) := by
        refine Finset.sum_congr rfl fun k hk => ?_
        rw [lookup_erase_ne m (Finset.mem_range.mp hk).ne']
      rw [Finset.sum_range_succ, ← hsame, ← ih (m.erase bound) hbelow]
      cases hlast : m[bound]? with
      | none =>
          have herase : m.erase bound = m := by
            apply Std.ExtTreeMap.ext_getElem?
            intro k
            rw [lookup_erase]
            split
            · next heq => rw [← heq, hlast]
            · rfl
          rw [herase, Option.elim_none, Nat.add_zero]
      | some v =>
          rw [sumOver_eq_add_erase f m hlast, Option.elim_some, Nat.add_comm]

end Sum

end OrderedMap

end RetroShare
