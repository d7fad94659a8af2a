import RetroShare.Foundation.Extent

/-!
# Where the objects lie

Arrays from the system, some of which are chunks. An object is a block of a chunk for its size, or an
array of its own. So objects do not overlap, and which array one lies in decides what it is.
-/

namespace RetroShare.Util

open Extent

/-- `chunk n d` says that the array at `d` is one of 255 blocks of `n` bytes. -/
structure Layout (space : Nat) (arrays : OrderedMap Nat Nat) (chunk : Nat → Nat → Prop)
    (objects : OrderedMap Nat Nat) : Prop where
  packed : Packed id 0 space arrays
  chunks : ∀ {n d : Nat}, chunk n d → arrays[d]? = some (n * 255)
  large : ∀ {p n : Nat}, objects[p]? = some n → 2 ≤ n
  placed : ∀ {p n : Nat}, objects[p]? = some n →
    (∃ d i, chunk n d ∧ i < 255 ∧ p = d + i * n) ∨ (arrays[p]? = some n ∧ ∀ m, ¬chunk m p)

namespace Layout

variable {space fresh n m d e i j p q x : Nat} {arrays objects : OrderedMap Nat Nat}
  {chunk chunk' : Nat → Nat → Prop}

theorem block_le (n d : Nat) (hi : i < 255) : d + i * n + n ≤ d + n * 255 := by
  have hmul := Nat.mul_le_mul_right n (Nat.succ_le_of_lt hi)
  rw [Nat.succ_mul] at hmul
  omega

/-- What was put into a packed table had its place to itself. -/
theorem not_covers_of_insert (hpacked : Packed id 0 space (objects.insert p n))
    (habsent : objects[p]? = none) (hle : p ≤ x) (hlt : x < p + n) : ¬Covers id objects x := by
  rintro ⟨q, m, hq, hqx, hxq⟩
  have hne : p ≠ q := by
    rintro rfl
    rw [habsent] at hq
    cases hq
  exact hne (hpacked.start_unique (OrderedMap.lookup_insert_self _ _ _)
    ((OrderedMap.lookup_insert_ne _ _ hne).trans hq) ⟨hle, hlt⟩ ⟨hqx, hxq⟩)

theorem empty : Layout space ∅ (fun _ _ => False) ∅ where
  packed := .empty
  chunks := False.elim
  large := by simp
  placed := by simp

variable (hlayout : Layout space arrays chunk objects)

include hlayout

theorem congr (hiff : ∀ n d, chunk' n d ↔ chunk n d) : Layout space arrays chunk' objects := by
  have heq : chunk' = chunk := by
    funext n d
    exact propext (hiff n d)
  rwa [heq]

/-- The array that an object lies in. -/
theorem home (hobject : objects[p]? = some n) :
    ∃ d size, arrays[d]? = some size ∧ d ≤ p ∧ p + n ≤ d + size := by
  rcases hlayout.placed hobject with ⟨d, i, hchunk, hi, rfl⟩ | ⟨harray, _⟩
  · exact ⟨d, n * 255, hlayout.chunks hchunk, Nat.le_add_right _ _, block_le n d hi⟩
  · exact ⟨p, n, harray, le_rfl, le_rfl⟩

theorem covers_arrays (hcovers : Covers id objects x) : Covers id arrays x := by
  obtain ⟨p, n, hobject, hle, hlt⟩ := hcovers
  obtain ⟨d, size, harray, hd, hend⟩ := hlayout.home hobject
  exact ⟨d, size, harray, hd.trans hle, lt_of_lt_of_le hlt hend⟩

/-- An object that reaches into a chunk is one of its blocks. -/
theorem block_of_mem (hchunk : chunk n d) (hobject : objects[p]? = some m)
    (hp : p ≤ x ∧ x < p + m) (hx : d ≤ x ∧ x < d + n * 255) :
    m = n ∧ ∃ i < 255, p = d + i * n := by
  rcases hlayout.placed hobject with ⟨e, i, he, hi, rfl⟩ | ⟨harray, hnone⟩
  · have hend := block_le m e hi
    have heq : e = d := hlayout.packed.start_unique (x := x) (hlayout.chunks he)
      (hlayout.chunks hchunk) ⟨by omega, by rw [id]; omega⟩ hx
    subst heq
    have hsize : m * 255 = n * 255 :=
      Option.some.inj ((hlayout.chunks he).symm.trans (hlayout.chunks hchunk))
    obtain rfl : m = n := by omega
    exact ⟨rfl, i, hi, rfl⟩
  · have heq : p = d := hlayout.packed.start_unique harray (hlayout.chunks hchunk) hp hx
    exact absurd (heq ▸ hchunk) (hnone n)

/-- The first bytes of vacant blocks are in no object. -/
theorem not_covers_block (hchunk : chunk n d) (hi : i < 255) (hpos : 0 < n)
    (hvacant : objects[d + i * n]? = none) : ¬Covers id objects (d + i * n) := by
  rintro ⟨p, m, hobject, hle, hlt⟩
  have hend := block_le n d hi
  obtain ⟨rfl, j, hj, rfl⟩ := hlayout.block_of_mem hchunk hobject ⟨hle, hlt⟩
    ⟨Nat.le_add_right _ _, by omega⟩
  rw [id] at hlt
  have heq : i = j := by
    have hij : i * m < (j + 1) * m := by
      rw [Nat.succ_mul]
      omega
    have hji : j * m ≤ i * m := by omega
    have := Nat.lt_of_mul_lt_mul_right hij
    have := Nat.le_of_mul_le_mul_right hji hpos
    omega
  rw [heq, hobject] at hvacant
  cases hvacant

/-- Chunks for different sizes. -/
theorem chunks_apart (hd : chunk n d) (he : chunk m e) (hne : n ≠ m) :
    e ≠ d ∧ (e + m * 255 ≤ d ∨ d + n * 255 ≤ e) := by
  have hde : e ≠ d := by
    rintro rfl
    have hsize : n * 255 = m * 255 :=
      Option.some.inj ((hlayout.chunks hd).symm.trans (hlayout.chunks he))
    omega
  refine ⟨hde, ?_⟩
  rcases lt_or_gt_of_ne hde with hlt | hlt
  · exact Or.inl (hlayout.packed.separated (hlayout.chunks he) (hlayout.chunks hd) hlt)
  · exact Or.inr (hlayout.packed.separated (hlayout.chunks hd) (hlayout.chunks he) hlt)

/-- Objects in one array are blocks of one chunk, or the same. -/
theorem separated {p q u v : Nat} (hp : objects[p]? = some u) (hq : objects[q]? = some v)
    (hlt : p < q) : p + u ≤ q := by
  by_contra hover
  have hu := hlayout.large hp
  have hv := hlayout.large hq
  rcases hlayout.placed hq with ⟨d, j, hchunk, hj, rfl⟩ | ⟨harray, hnone⟩
  · have hend := block_le v d hj
    obtain ⟨rfl, i, hi, rfl⟩ := hlayout.block_of_mem (x := d + j * v) hchunk hp
      ⟨by omega, by omega⟩ ⟨by omega, by omega⟩
    have hij : i < j := Nat.lt_of_mul_lt_mul_right (by omega : i * u < j * u)
    have hmul := Nat.mul_le_mul_right u (Nat.succ_le_of_lt hij)
    rw [Nat.succ_mul] at hmul
    omega
  · rcases hlayout.placed hp with ⟨d, i, hchunk, hi, rfl⟩ | ⟨harray', _⟩
    · have hend := block_le u d hi
      obtain ⟨_, j, _, rfl⟩ := hlayout.block_of_mem (x := q) hchunk hq ⟨le_rfl, by omega⟩
        ⟨by omega, by omega⟩
      have heq : d = d + j * u := hlayout.packed.start_unique (x := d + j * u)
        (hlayout.chunks hchunk) harray ⟨Nat.le_add_right _ _, by rw [id]; omega⟩
        ⟨le_rfl, by rw [id]; omega⟩
      exact hnone u (heq ▸ hchunk)
    · have := hlayout.packed.separated harray' harray hlt
      rw [id] at this
      omega

theorem objects_packed : Packed id 0 space objects where
  positive := fun hobject => Nat.lt_of_lt_of_le Nat.zero_lt_two (hlayout.large hobject)
  lower := fun _ => Nat.zero_le _
  upper := fun hobject => by
    obtain ⟨d, size, harray, hd, hend⟩ := hlayout.home hobject
    exact hend.trans (hlayout.packed.upper harray)
  separated := hlayout.separated

/-! ### What changes -/

/-- A vacant block becomes an object. -/
theorem insert_block (hchunk : chunk n d) (hi : i < 255) (hlarge : 2 ≤ n) :
    Layout space arrays chunk (objects.insert (d + i * n) n) where
  packed := hlayout.packed
  chunks := hlayout.chunks
  large := by
    intro q m hq
    rw [OrderedMap.lookup_insert] at hq
    split at hq
    · cases hq
      exact hlarge
    · exact hlayout.large hq
  placed := by
    intro q m hq
    rw [OrderedMap.lookup_insert] at hq
    split at hq
    · next heq =>
        cases hq
        exact Or.inl ⟨d, i, hchunk, hi, heq.symm⟩
    · exact hlayout.placed hq

theorem erase_object (p : Nat) : Layout space arrays chunk (objects.erase p) := by
  have hsub : ∀ {q m : Nat}, (objects.erase p)[q]? = some m → objects[q]? = some m := by
    intro q m hq
    rw [OrderedMap.lookup_erase] at hq
    split at hq
    · cases hq
    · exact hq
  exact { hlayout with
    large := fun hq => hlayout.large (hsub hq)
    placed := fun hq => hlayout.placed (hsub hq) }

section Array

variable (hpos : 0 < n) (hfresh : ∀ x, fresh ≤ x → x < fresh + n → ¬Covers id arrays x)

include hpos hfresh

theorem fresh_absent : arrays[fresh]? = none := by
  apply hlayout.packed.absent_of_free _ hfresh
  exact hpos

theorem lookup_insert_fresh (harray : arrays[d]? = some m) :
    (arrays.insert fresh n)[d]? = some m := by
  rw [OrderedMap.lookup_insert_ne _ _ fun heq => ?_]
  · exact harray
  · rw [← heq, hlayout.fresh_absent hpos hfresh] at harray
    cases harray

theorem insert_packed (hspace : fresh + n ≤ space) :
    Packed id 0 space (arrays.insert fresh n) :=
  hlayout.packed.insert hpos hfresh (Nat.zero_le _) hspace

end Array

/-- A new array is a chunk. -/
theorem insert_chunk (hpos : 0 < n * 255)
    (hfresh : ∀ x, fresh ≤ x → x < fresh + n * 255 → ¬Covers id arrays x)
    (hspace : fresh + n * 255 ≤ space) :
    Layout space (arrays.insert fresh (n * 255)) (fun m d => chunk m d ∨ (m = n ∧ d = fresh))
      objects where
  packed := hlayout.insert_packed hpos hfresh hspace
  chunks := by
    rintro m d (hchunk | ⟨rfl, rfl⟩)
    · exact hlayout.lookup_insert_fresh hpos hfresh (hlayout.chunks hchunk)
    · exact OrderedMap.lookup_insert_self _ _ _
  large := hlayout.large
  placed := by
    intro p m hp
    rcases hlayout.placed hp with ⟨d, i, hchunk, hi, rfl⟩ | ⟨harray, hnone⟩
    · exact Or.inl ⟨d, i, Or.inl hchunk, hi, rfl⟩
    · refine Or.inr ⟨hlayout.lookup_insert_fresh hpos hfresh harray, fun k hk => ?_⟩
      rcases hk with hk | ⟨_, rfl⟩
      · exact hnone k hk
      · rw [hlayout.fresh_absent hpos hfresh] at harray
        cases harray

/-- A new array is an object. -/
theorem insert_single (hlarge : 2 ≤ n)
    (hfresh : ∀ x, fresh ≤ x → x < fresh + n → ¬Covers id arrays x)
    (hspace : fresh + n ≤ space) :
    Layout space (arrays.insert fresh n) chunk (objects.insert fresh n) where
  packed := hlayout.insert_packed (by omega) hfresh hspace
  chunks := fun hchunk => hlayout.lookup_insert_fresh (by omega) hfresh (hlayout.chunks hchunk)
  large := by
    intro q m hq
    rw [OrderedMap.lookup_insert] at hq
    split at hq
    · cases hq
      exact hlarge
    · exact hlayout.large hq
  placed := by
    intro q m hq
    rw [OrderedMap.lookup_insert] at hq
    split at hq
    · next heq =>
        subst heq
        cases hq
        refine Or.inr ⟨OrderedMap.lookup_insert_self _ _ _, fun k hk => ?_⟩
        have harray := hlayout.chunks hk
        rw [hlayout.fresh_absent (by omega) hfresh] at harray
        cases harray
    · rcases hlayout.placed hq with hblock | ⟨harray, hnone⟩
      · exact Or.inl hblock
      · exact Or.inr ⟨hlayout.lookup_insert_fresh (by omega) hfresh harray, hnone⟩

/-- What lies in the array of a large object is this object. -/
theorem eq_of_single (harray : arrays[p]? = some n) (hnone : ∀ m, ¬chunk m p)
    (hobject : objects[q]? = some m) (hle : p ≤ q) (hlt : q < p + n) : q = p := by
  have hm := hlayout.large hobject
  rcases hlayout.placed hobject with ⟨d, i, hchunk, hi, rfl⟩ | ⟨harray', _⟩
  · have hend := block_le m d hi
    have heq : d = p := hlayout.packed.start_unique (x := d + i * m) (hlayout.chunks hchunk) harray
      ⟨Nat.le_add_right _ _, by rw [id]; omega⟩ ⟨hle, hlt⟩
    exact absurd (heq ▸ hchunk) (hnone m)
  · exact hlayout.packed.start_unique (x := q) harray' harray ⟨le_rfl, by rw [id]; omega⟩ ⟨hle, hlt⟩

/-- An array goes that no object lies in. -/
theorem erase_array (harray : arrays[d]? = some n)
    (hempty : ∀ p m, objects[p]? = some m → d ≤ p → ¬p < d + n) :
    Layout space (arrays.erase d) (fun m e => chunk m e ∧ e ≠ d) objects where
  packed := hlayout.packed.erase d
  chunks := fun ⟨hchunk, hne⟩ => (OrderedMap.lookup_erase_ne _ hne.symm).trans (hlayout.chunks hchunk)
  large := hlayout.large
  placed := by
    intro p m hp
    have hm := hlayout.large hp
    rcases hlayout.placed hp with ⟨e, i, hchunk, hi, rfl⟩ | ⟨hself, hnone⟩
    · refine Or.inl ⟨e, i, ⟨hchunk, fun heq => ?_⟩, hi, rfl⟩
      subst heq
      have hend := block_le m e hi
      have hsize : n = m * 255 := Option.some.inj (harray.symm.trans (hlayout.chunks hchunk))
      exact hempty _ m hp (Nat.le_add_right _ _) (by omega)
    · have hne : d ≠ p := by
        rintro rfl
        have hsize : n = m := Option.some.inj (harray.symm.trans hself)
        exact hempty d m hp le_rfl (by omega)
      exact Or.inr ⟨(OrderedMap.lookup_erase_ne _ hne).trans hself, fun k hk => hnone k hk.1⟩

end Layout

end RetroShare.Util
