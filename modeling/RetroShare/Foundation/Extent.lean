import RetroShare.Foundation.OrderedMap

/-!
# Tables of extents

An extent is a half-open range `[start, start + length)`. A table keeps extents under their start,
with the length (and anything else) in the value. A table is packed in `[low, high)` when its
extents are non-empty, lie in that range and do not overlap. Cutting a new extent off the end,
dropping one, and shrinking one from either side keep a table packed; each operation changes the
set of covered positions in the obvious way, which is the fact accounting proofs are after.
-/

namespace RetroShare.Extent

variable {V : Type} (length : V → Nat)

/-- Non-empty, pairwise disjoint extents inside `[low, high)`. -/
structure Packed (low high : Nat) (table : OrderedMap Nat V) : Prop where
  positive : ∀ {start : Nat} {value : V}, table[start]? = some value → 0 < length value
  lower : ∀ {start : Nat} {value : V}, table[start]? = some value → low ≤ start
  upper : ∀ {start : Nat} {value : V}, table[start]? = some value →
    start + length value ≤ high
  separated : ∀ {first second : Nat} {u v : V}, table[first]? = some u →
    table[second]? = some v → first < second → first + length u ≤ second

/-- Position `x` lies in some extent of the table. -/
def Covers (table : OrderedMap Nat V) (x : Nat) : Prop :=
  ∃ (start : Nat) (value : V), table[start]? = some value ∧ start ≤ x ∧ x < start + length value

variable {length} {low high : Nat} {table : OrderedMap Nat V}

theorem Packed.empty : Packed length low high (∅ : OrderedMap Nat V) := by
  constructor <;> simp

theorem not_covers_empty (x : Nat) : ¬ Covers length (∅ : OrderedMap Nat V) x := by
  simp [Covers]

theorem Packed.mono (hpacked : Packed length low high table) {low' high' : Nat}
    (hlow : low' ≤ low) (hhigh : high ≤ high') : Packed length low' high' table where
  positive := hpacked.positive
  lower := fun hmem => hlow.trans (hpacked.lower hmem)
  upper := fun hmem => (hpacked.upper hmem).trans hhigh
  separated := hpacked.separated

theorem Packed.absent_of_le (hpacked : Packed length low high table) {start : Nat}
    (hstart : high ≤ start) : table[start]? = none := by
  rw [Option.eq_none_iff_forall_ne_some]
  intro value hmem
  have := hpacked.positive hmem
  have := hpacked.upper hmem
  omega

theorem Packed.lt_of_covers (hpacked : Packed length low high table) {x : Nat}
    (hcovers : Covers length table x) : low ≤ x ∧ x < high := by
  obtain ⟨start, value, hmem, hle, hlt⟩ := hcovers
  exact ⟨(hpacked.lower hmem).trans hle, lt_of_lt_of_le hlt (hpacked.upper hmem)⟩

/-- Two extents of a packed table that share a position are the same extent. -/
theorem Packed.start_unique (hpacked : Packed length low high table) {a b x : Nat} {u v : V}
    (ha : table[a]? = some u) (hb : table[b]? = some v)
    (hax : a ≤ x ∧ x < a + length u) (hbx : b ≤ x ∧ x < b + length v) : a = b := by
  rcases lt_trichotomy a b with hlt | heq | hgt
  · have := hpacked.separated ha hb hlt
    omega
  · exact heq
  · have := hpacked.separated hb ha hgt
    omega

section Insert

variable {start : Nat} {value : V} (hpacked : Packed length low high table)

include hpacked

theorem Packed.absent_of_free (hpos : 0 < length value)
    (hfree : ∀ x, start ≤ x → x < start + length value → ¬ Covers length table x) :
    table[start]? = none := by
  rw [Option.eq_none_iff_forall_ne_some]
  intro old hold
  have := hpacked.positive hold
  exact hfree start le_rfl (by omega) ⟨start, old, hold, le_rfl, by omega⟩

/-- A new extent may go wherever the table covers nothing. -/
theorem Packed.insert (hpos : 0 < length value)
    (hfree : ∀ x, start ≤ x → x < start + length value → ¬ Covers length table x)
    (hlow : low ≤ start) (hhigh : start + length value ≤ high) :
    Packed length low high (table.insert start value) := by
  constructor
  · intro first u hfirst
    rw [OrderedMap.lookup_insert] at hfirst
    split at hfirst
    · cases hfirst
      exact hpos
    · exact hpacked.positive hfirst
  · intro first u hfirst
    rw [OrderedMap.lookup_insert] at hfirst
    split at hfirst
    · next heq => exact heq ▸ hlow
    · exact hpacked.lower hfirst
  · intro first u hfirst
    rw [OrderedMap.lookup_insert] at hfirst
    split at hfirst
    · next heq =>
        cases hfirst
        exact heq ▸ hhigh
    · exact hpacked.upper hfirst
  · intro first second u v hfirst hsecond hlt
    rw [OrderedMap.lookup_insert] at hfirst hsecond
    split at hsecond
    · next heq =>
        cases hsecond
        rw [if_neg (by omega)] at hfirst
        by_contra hover
        exact hfree second (by omega) (by omega) ⟨first, u, hfirst, by omega, by omega⟩
    · split at hfirst
      · next heq =>
          cases hfirst
          have := hpacked.positive hsecond
          by_contra hover
          exact hfree second (by omega) (by omega) ⟨second, v, hsecond, le_rfl, by omega⟩
      · exact hpacked.separated hfirst hsecond hlt

theorem Packed.covers_insert (hpos : 0 < length value)
    (hfree : ∀ x, start ≤ x → x < start + length value → ¬ Covers length table x) (x : Nat) :
    Covers length (table.insert start value) x ↔
      Covers length table x ∨ (start ≤ x ∧ x < start + length value) := by
  have habsent := hpacked.absent_of_free hpos hfree
  constructor
  · rintro ⟨first, u, hfirst, hle, hlt⟩
    rw [OrderedMap.lookup_insert] at hfirst
    split at hfirst
    · next heq =>
        cases hfirst
        exact Or.inr ⟨heq ▸ hle, heq ▸ hlt⟩
    · exact Or.inl ⟨first, u, hfirst, hle, hlt⟩
  · rintro (⟨first, u, hfirst, hle, hlt⟩ | ⟨hle, hlt⟩)
    · have hne : start ≠ first := by
        rintro rfl
        rw [habsent] at hfirst
        exact absurd hfirst nofun
      exact ⟨first, u, by rw [OrderedMap.lookup_insert_ne _ _ hne, hfirst], hle, hlt⟩
    · exact ⟨start, value, OrderedMap.lookup_insert_self _ _ _, hle, hlt⟩

end Insert

section Append

variable {value : V} (hpacked : Packed length low high table)

include hpacked

theorem Packed.free_above (x : Nat) (hx : high ≤ x) : ¬ Covers length table x := by
  intro hcovers
  have := (hpacked.lt_of_covers hcovers).2
  omega

/-- An extent cut off right after the last position of the range. -/
theorem Packed.append (hlow : low ≤ high) (hpos : 0 < length value) :
    Packed length low (high + length value) (table.insert high value) :=
  (hpacked.mono le_rfl (Nat.le_add_right _ _)).insert hpos
    (fun x hx _ => hpacked.free_above x hx) hlow le_rfl

theorem Packed.covers_append (hpos : 0 < length value) (x : Nat) :
    Covers length (table.insert high value) x ↔
      Covers length table x ∨ (high ≤ x ∧ x < high + length value) :=
  hpacked.covers_insert hpos (fun x hx _ => hpacked.free_above x hx) x

end Append

section Erase

variable (hpacked : Packed length low high table)

include hpacked

theorem Packed.erase (dropped : Nat) : Packed length low high (table.erase dropped) := by
  have hsub : ∀ {start : Nat} {value : V}, (table.erase dropped)[start]? = some value →
      table[start]? = some value := by
    intro start value hmem
    rw [OrderedMap.lookup_erase] at hmem
    split at hmem
    · exact absurd hmem nofun
    · exact hmem
  exact {
    positive := fun hmem => hpacked.positive (hsub hmem)
    lower := fun hmem => hpacked.lower (hsub hmem)
    upper := fun hmem => hpacked.upper (hsub hmem)
    separated := fun hfirst hsecond => hpacked.separated (hsub hfirst) (hsub hsecond) }

theorem Packed.covers_erase {dropped : Nat} {value : V} (hmem : table[dropped]? = some value)
    (x : Nat) :
    Covers length (table.erase dropped) x ↔
      Covers length table x ∧ ¬ (dropped ≤ x ∧ x < dropped + length value) := by
  constructor
  · rintro ⟨start, w, hstart, hle, hlt⟩
    rw [OrderedMap.lookup_erase] at hstart
    split at hstart
    · exact absurd hstart nofun
    · next hne =>
        refine ⟨⟨start, w, hstart, hle, hlt⟩, fun hx => hne ?_⟩
        exact hpacked.start_unique hmem hstart hx ⟨hle, hlt⟩
  · rintro ⟨⟨start, w, hstart, hle, hlt⟩, hout⟩
    have hne : dropped ≠ start := by
      rintro rfl
      rw [hmem] at hstart
      cases hstart
      exact hout ⟨hle, hlt⟩
    exact ⟨start, w, by rw [OrderedMap.lookup_erase_ne _ hne, hstart], hle, hlt⟩

omit hpacked in
theorem Packed.covers_replace (_hpacked : Packed length low high table) {start : Nat}
    {value value' : V} (hmem : table[start]? = some value) (hlength : length value' = length value)
    (x : Nat) : Covers length (table.insert start value') x ↔ Covers length table x := by
  constructor
  · rintro ⟨first, u, hfirst, hle, hlt⟩
    rw [OrderedMap.lookup_insert] at hfirst
    split at hfirst
    · next heq =>
        cases hfirst
        exact ⟨start, value, hmem, heq ▸ hle, by omega⟩
    · exact ⟨first, u, hfirst, hle, hlt⟩
  · rintro ⟨first, u, hfirst, hle, hlt⟩
    by_cases heq : start = first
    · subst heq
      rw [hmem] at hfirst
      cases hfirst
      exact ⟨start, value', OrderedMap.lookup_insert_self _ _ _, hle, by omega⟩
    · exact ⟨first, u, by rw [OrderedMap.lookup_insert_ne _ _ heq, hfirst], hle, hlt⟩

/-- A new value of the same length under an old start. -/
theorem Packed.replace {start : Nat} {value value' : V} (hmem : table[start]? = some value)
    (hlength : length value' = length value) :
    Packed length low high (table.insert start value') := by
  have hold : ∀ {first : Nat} {u : V}, (table.insert start value')[first]? = some u →
      ∃ w, table[first]? = some w ∧ length w = length u := by
    intro first u hfirst
    rw [OrderedMap.lookup_insert] at hfirst
    split at hfirst
    · next heq =>
        cases hfirst
        exact ⟨value, heq ▸ hmem, hlength.symm⟩
    · exact ⟨u, hfirst, rfl⟩
  constructor
  · intro first u hfirst
    obtain ⟨w, hw, heq⟩ := hold hfirst
    exact heq ▸ hpacked.positive hw
  · intro first u hfirst
    obtain ⟨w, hw, _⟩ := hold hfirst
    exact hpacked.lower hw
  · intro first u hfirst
    obtain ⟨w, hw, heq⟩ := hold hfirst
    exact heq ▸ hpacked.upper hw
  · intro first second u v hfirst hsecond hlt
    obtain ⟨w, hw, heq⟩ := hold hfirst
    obtain ⟨z, hz, _⟩ := hold hsecond
    exact heq ▸ hpacked.separated hw hz hlt

end Erase

/-- A table has total length zero exactly when it covers nothing. -/
theorem total_eq_zero :
    OrderedMap.sumOver (fun _ value => length value) table = 0 ↔ ∀ x, ¬ Covers length table x := by
  rw [OrderedMap.sumOver_eq_zero]
  constructor
  · rintro hzero x ⟨start, value, hmem, hle, hlt⟩
    have := hzero start value hmem
    omega
  · intro hnone start value hmem
    by_contra hne
    exact hnone start ⟨start, value, hmem, le_rfl, by omega⟩

end RetroShare.Extent
