import RetroShare.Foundation.OrderedMap

/-!
# Labels and tallies

Several entries of a table may carry one label. The labels of a table are a set, which an entry leaves
only with the last entry of its label. Where every label belongs to somebody, a tally says how many
labels each has.
-/

namespace RetroShare

namespace OrderedMap

variable {K V L : Type} [LinearOrder K] [DecidableEq L] (label : V → L) {m : OrderedMap K V}

/-- The labels of the entries of a table. -/
def labels (m : OrderedMap K V) : Finset L :=
  (m.toList.map fun entry => label entry.2).toFinset

theorem mem_labels {l : L} : l ∈ labels label m ↔ ∃ (k : K) (v : V), m[k]? = some v ∧ label v = l := by
  rw [labels, List.mem_toFinset, List.mem_map]
  constructor
  · rintro ⟨⟨k, v⟩, hentry, hlabel⟩
    exact ⟨k, v, (mem_toList m).mp hentry, hlabel⟩
  · rintro ⟨k, v, hlookup, hlabel⟩
    exact ⟨(k, v), (mem_toList m).mpr hlookup, hlabel⟩

theorem label_mem {k : K} {v : V} (hlookup : m[k]? = some v) : label v ∈ labels label m :=
  (mem_labels label).mpr ⟨k, v, hlookup, rfl⟩

@[simp]
theorem labels_empty : labels label (∅ : OrderedMap K V) = ∅ := by
  ext l
  simp [mem_labels]

theorem labels_eq_insert_erase {k : K} {v : V} (hlookup : m[k]? = some v) :
    labels label m = insert (label v) (labels label (m.erase k)) := by
  ext l
  rw [Finset.mem_insert, mem_labels, mem_labels]
  constructor
  · rintro ⟨k', v', hlookup', rfl⟩
    by_cases hkey : k = k'
    · rw [← hkey, hlookup] at hlookup'
      exact .inl (congrArg label (Option.some.inj hlookup').symm)
    · exact .inr ⟨k', v', by rw [lookup_erase_ne _ hkey, hlookup'], rfl⟩
  · rintro (rfl | ⟨k', v', hlookup', rfl⟩)
    · exact ⟨k, v, hlookup, rfl⟩
    · rw [lookup_erase] at hlookup'
      split at hlookup'
      · cases hlookup'
      · exact ⟨k', v', hlookup', rfl⟩

theorem labels_insert_of_absent {k : K} (v : V) (habsent : m[k]? = none) :
    labels label (m.insert k v) = insert (label v) (labels label m) := by
  rw [labels_eq_insert_erase label (lookup_insert_self m k v), erase_insert_of_absent m v habsent]

/-- An entry that keeps its label leaves the set as it is. -/
theorem labels_insert_of_same {k : K} {u v : V} (hlookup : m[k]? = some u)
    (hsame : label v = label u) : labels label (m.insert k v) = labels label m := by
  rw [labels_eq_insert_erase label (lookup_insert_self m k v), erase_insert,
    labels_eq_insert_erase label hlookup, hsame]

theorem labels_erase_of_other {k k' : K} {v v' : V} (hlookup : m[k]? = some v)
    (hother : (m.erase k)[k']? = some v') (hsame : label v' = label v) :
    labels label (m.erase k) = labels label m := by
  rw [labels_eq_insert_erase label hlookup, ← hsame, Finset.insert_eq_of_mem (label_mem label hother)]

theorem labels_erase_of_only {k : K} {v : V} (hlookup : m[k]? = some v)
    (honly : ∀ (k' : K) (v' : V), (m.erase k)[k']? = some v' → label v' ≠ label v) :
    labels label (m.erase k) = (labels label m).erase (label v) := by
  rw [labels_eq_insert_erase label hlookup, Finset.erase_insert]
  rw [mem_labels]
  rintro ⟨k', v', hlookup', hlabel⟩
  exact honly k' v' hlookup' hlabel

end OrderedMap

section Tally

variable {L P : Type} [DecidableEq L] [DecidableEq P] {owner : L → P} {labels : Finset L}
  {count : P → Nat}

/-- Everybody's count is the number of his labels. -/
def Tally (owner : L → P) (labels : Finset L) (count : P → Nat) : Prop :=
  ∀ p, count p = (labels.filter (owner · = p)).card

theorem Tally.insert (htally : Tally owner labels count) {l : L} (hfresh : l ∉ labels) :
    Tally owner (insert l labels) (Function.update count (owner l) (count (owner l) + 1)) := by
  intro p
  rw [Finset.filter_insert]
  split
  · next howner =>
    subst howner
    rw [Function.update_self, htally, Finset.card_insert_of_notMem]
    exact fun hmem => hfresh (Finset.mem_of_mem_filter l hmem)
  · next hother =>
    rw [Function.update_of_ne (Ne.symm hother), htally]

omit [DecidableEq L] in
theorem Tally.pos (htally : Tally owner labels count) {l : L} (hmem : l ∈ labels) :
    0 < count (owner l) := by
  rw [htally, Finset.card_pos]
  exact ⟨l, Finset.mem_filter.mpr ⟨hmem, rfl⟩⟩

theorem Tally.erase (htally : Tally owner labels count) {l : L} (hmem : l ∈ labels) :
    Tally owner (labels.erase l) (Function.update count (owner l) (count (owner l) - 1)) := by
  intro p
  rw [Finset.filter_erase]
  by_cases howner : owner l = p
  · subst howner
    rw [Function.update_self, htally, Finset.card_erase_of_mem]
    exact Finset.mem_filter.mpr ⟨hmem, rfl⟩
  · rw [Function.update_of_ne (Ne.symm howner), htally, Finset.erase_eq_of_notMem]
    exact fun hfilter => howner (Finset.mem_filter.mp hfilter).2

end Tally

end RetroShare
