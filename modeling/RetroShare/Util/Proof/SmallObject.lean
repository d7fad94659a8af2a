import RetroShare.Util.Proof.SmallBlocks
import RetroShare.Util.Proof.SmallLayout

/-!
# Small objects do not overlap

Over whole runs: no assertion fails and nothing outside the arrays is touched, an object keeps its bytes
until it is deleted, no array is kept for nothing, and the count at the end is the memory in use.
-/

namespace RetroShare.Util

open Bytes Extent

variable {space bytes fresh n m d p x : Nat} {h h' : Heap} {objects : OrderedMap Nat Nat}
  {pool : OrderedMap Nat FixedAllocator} {a a' : FixedAllocator}

/-! ### The pool -/

/-- The arrays that are chunks. -/
def chunksOf (pool : OrderedMap Nat FixedAllocator) (n d : Nat) : Prop :=
  ∃ a, pool[n]? = some a ∧ d ∈ a.data

theorem chunksOf_insert : chunksOf (pool.insert n a) m d ↔
    if n = m then d ∈ a.data else chunksOf pool m d := by
  unfold chunksOf
  rw [OrderedMap.lookup_insert]
  split
  · constructor
    · rintro ⟨b, hb, hd⟩
      cases hb
      exact hd
    · exact fun hd => ⟨a, rfl, hd⟩
  · rfl

namespace SmallObjectAllocator

variable {s : SmallObjectAllocator}

/-- The allocator for a size, as it is or new. -/
def fixed (s : SmallObjectAllocator) (bytes : Nat) : FixedAllocator := s.pool[bytes]?.getD (.new bytes)

theorem mem_data_fixed : d ∈ (s.fixed n).data ↔ chunksOf s.pool n d := by
  unfold fixed chunksOf
  cases s.pool[n]? with
  | none => simp [FixedAllocator.new, FixedAllocator.data]
  | some a => simp

/-- Before the end of the allocator. -/
structure Working (s : SmallObjectAllocator) (h : Heap) (objects : OrderedMap Nat Nat) : Prop where
  maxObjectSize : s.maxObjectSize = maxSmallObjectSize
  lastAlloc : ∀ {n : Nat}, s.lastAlloc = some n → n ∈ s.pool
  lastDealloc : ∀ {n : Nat}, s.lastDealloc = some n → n ∈ s.pool
  sizes : ∀ {n : Nat} {a : FixedAllocator}, s.pool[n]? = some a → 2 ≤ n ∧ n ≤ maxSmallObjectSize
  serves : ∀ {n : Nat} {a : FixedAllocator}, s.pool[n]? = some a → a.Serves h objects n
  inUse : ∀ {n : Nat} {a : FixedAllocator}, s.pool[n]? = some a → a.InUse
  small : ∀ {p n : Nat}, objects[p]? = some n → n ≤ maxSmallObjectSize →
    ∃ d i, chunksOf s.pool n d ∧ i < 255 ∧ p = d + i * n
  kept : ∀ {d m : Nat}, h.arrays[d]? = some m →
    (∃ n, chunksOf s.pool n d) ∨ (objects[d]? = some m ∧ maxSmallObjectSize < m)
  account : OrderedMap.sumOver (fun _ n => if n ≤ maxSmallObjectSize then n else 0) objects =
    OrderedMap.sumOver (fun n a => a.used * n) s.pool

theorem Working.lastFits (hworking : s.Working h objects) {last : Option Nat}
    (hlast : ∀ {n : Nat}, last = some n → n ∈ s.pool) :
    s.lastFits last bytes = some (decide (last = some bytes)) := by
  cases last with
  | none => rfl
  | some n =>
      obtain ⟨a, ha⟩ := Option.isSome_iff_exists.mp
        (Std.ExtTreeMap.mem_iff_isSome_getElem?.mp (hlast rfl))
      rw [SmallObjectAllocator.lastFits, ha, Option.map_some, (hworking.serves ha).blockSize]
      simp

theorem lookup_withAllocator : (s.withAllocator bytes)[bytes]? = some (s.fixed bytes) := by
  unfold withAllocator fixed
  split
  · next hmem =>
      obtain ⟨a, ha⟩ := Option.isSome_iff_exists.mp (Std.ExtTreeMap.mem_iff_isSome_getElem?.mp hmem)
      rw [ha]
      rfl
  · next habsent =>
      rw [OrderedMap.lookup_insert_self, Std.ExtTreeMap.getElem?_eq_none habsent]
      rfl

theorem insert_withAllocator : (s.withAllocator bytes).insert bytes a = s.pool.insert bytes a := by
  unfold withAllocator
  split
  · rfl
  · apply Std.ExtTreeMap.ext_getElem?
    intro key
    simp only [OrderedMap.lookup_insert]
    split <;> rfl

/-- The last allocator is only a faster way to the same. -/
theorem allocate_eq (hworking : s.Working h objects) (hsmall : bytes ≤ maxSmallObjectSize) :
    s.allocate h bytes fresh = ((s.fixed bytes).allocate h fresh).map fun call =>
      (call.1, { s with pool := s.pool.insert bytes call.2.1, lastAlloc := some bytes }, call.2.2) := by
  have hmax : ¬s.maxObjectSize < bytes := by
    rw [hworking.maxObjectSize]
    exact Nat.not_lt.mpr hsmall
  unfold allocate
  rw [if_neg hmax, hworking.lastFits hworking.lastAlloc]
  by_cases hlast : s.lastAlloc = some bytes
  · have hmem := hworking.lastAlloc hlast
    have hlookup : s.pool[bytes]? = some (s.fixed bytes) := by
      rw [← lookup_withAllocator, withAllocator, if_pos hmem]
    simp only [hlast, decide_true, if_true, Option.bind_eq_bind, Option.bind_some, hlookup,
      Option.pure_def, Option.map_eq_bind]
    rfl
  · simp only [hlast, decide_false, if_false, Option.bind_eq_bind, Option.bind_some,
      lookup_withAllocator, insert_withAllocator, Option.pure_def, Option.map_eq_bind,
      Bool.false_eq_true]
    rfl

theorem deallocate_eq (hworking : s.Working h objects) (hsmall : bytes ≤ maxSmallObjectSize) :
    s.deallocate h p bytes = ((s.fixed bytes).deallocate h p).map fun call =>
      ({ s with pool := s.pool.insert bytes call.1, lastDealloc := some bytes }, call.2) := by
  have hmax : ¬s.maxObjectSize < bytes := by
    rw [hworking.maxObjectSize]
    exact Nat.not_lt.mpr hsmall
  unfold deallocate
  rw [if_neg hmax, hworking.lastFits hworking.lastDealloc]
  by_cases hlast : s.lastDealloc = some bytes
  · have hmem := hworking.lastDealloc hlast
    have hlookup : s.pool[bytes]? = some (s.fixed bytes) := by
      rw [← lookup_withAllocator, withAllocator, if_pos hmem]
    simp only [hlast, decide_true, if_true, Option.bind_eq_bind, Option.bind_some, hlookup,
      Option.pure_def, Option.map_eq_bind]
    rfl
  · simp only [hlast, decide_false, if_false, Option.bind_eq_bind, Option.bind_some,
      lookup_withAllocator, insert_withAllocator, Option.pure_def, Option.map_eq_bind,
      Bool.false_eq_true]
    rfl

theorem Working.serves_fixed (hworking : s.Working h objects) :
    (s.fixed bytes).Serves h objects bytes := by
  unfold fixed
  cases hlookup : s.pool[bytes]? with
  | none => exact FixedAllocator.serves_new
  | some a => exact hworking.serves hlookup

theorem Working.inUse_fixed (hworking : s.Working h objects) : (s.fixed bytes).InUse := by
  unfold fixed
  cases hlookup : s.pool[bytes]? with
  | none => exact fun c hc => absurd hc List.not_mem_nil
  | some a => exact hworking.inUse hlookup

theorem sumOver_insert_fixed :
    OrderedMap.sumOver (fun n a => a.used * n) (s.pool.insert bytes a) +
        (s.fixed bytes).used * bytes =
      OrderedMap.sumOver (fun n a => a.used * n) s.pool + a.used * bytes := by
  unfold fixed
  cases hlookup : s.pool[bytes]? with
  | none =>
      have hnew : (FixedAllocator.new bytes).used = 0 := rfl
      rw [OrderedMap.sumOver_insert_of_absent _ _ _ hlookup, Option.getD_none, hnew, Nat.zero_mul,
        Nat.add_zero, Nat.add_comm]
  | some b => exact OrderedMap.sumOver_insert_of_present _ _ a hlookup

/-- The allocators for other sizes do not notice. -/
theorem Working.serves_insert (hworking : s.Working h objects) {objects' : OrderedMap Nat Nat}
    {start size : Nat} (hkeeps : HeapKeeps h h' objects objects' start size)
    (hself : a.Serves h' objects' bytes)
    (hapart : ∀ m d, m ≠ bytes → chunksOf s.pool m d →
      d ≠ start ∧ (d + m * 255 ≤ start ∨ start + size ≤ d))
    {n : Nat} {b : FixedAllocator} (hlookup : (s.pool.insert bytes a)[n]? = some b) :
    b.Serves h' objects' n := by
  rw [OrderedMap.lookup_insert] at hlookup
  split at hlookup
  · next heq =>
      subst heq
      cases hlookup
      exact hself
  · next hne =>
      have hsize := hworking.sizes hlookup
      exact (hworking.serves hlookup).frame hkeeps (by omega) fun d hd =>
        hapart n d (Ne.symm hne) ⟨b, hlookup, hd⟩

/-- **A small object.** -/
theorem Working.allocate_spec (hworking : s.Working h objects)
    (hlayout : Layout space h.arrays (chunksOf s.pool) objects) (hlarge : 2 ≤ bytes)
    (hsmall : bytes ≤ maxSmallObjectSize)
    (hfresh : ∀ x, fresh ≤ x → x < fresh + bytes * 255 → ¬Covers id h.arrays x)
    (hspace : fresh + bytes * 255 ≤ space) :
    ∃ (p : Nat) (s' : SmallObjectAllocator) (h' : Heap),
      s.allocate h bytes fresh = some (some p, s', h') ∧ s'.active = s.active ∧
      objects[p]? = none ∧
      Layout space h'.arrays (chunksOf s'.pool) (objects.insert p bytes) ∧
      s'.Working h' (objects.insert p bytes) ∧
      ∀ x, Covers id objects x → h'.memory x = h.memory x := by
  have hvacant : ∀ x, fresh ≤ x → x < fresh + bytes * 255 → objects[x]? = none := by
    intro x hle hlt
    rw [Option.eq_none_iff_forall_ne_some]
    intro size hobject
    have hsize := hlayout.large hobject
    exact hfresh x hle hlt (hlayout.covers_arrays ⟨x, size, hobject, le_rfl, by
      rw [id]
      omega⟩)
  obtain ⟨a', h', c, i, hcall, hmem, hi, hnone, hserves, hinUse, hused, hkeeps, hmemory, hcase⟩ :=
    FixedAllocator.allocate_spec (a := s.fixed bytes) hworking.serves_fixed hworking.inUse_fixed
      hlarge hlayout.packed hvacant hfresh hspace
  have hdata : ∀ d ∈ (s.fixed bytes).data, d ∈ a'.data := by
    intro d hd
    rcases hcase with ⟨_, hdata⟩ | ⟨_, _, hdata⟩
    · rwa [hdata]
    · rw [hdata]
      exact List.mem_append_left _ hd
  have hc : chunksOf (s.pool.insert bytes a') bytes c.data := by
    rw [chunksOf_insert, if_pos rfl]
    exact List.mem_map_of_mem hmem
  have hgrown : Layout space h'.arrays (chunksOf (s.pool.insert bytes a')) objects := by
    rcases hcase with ⟨harrays, hdata⟩ | ⟨hfresh', harrays, hdata⟩
    · rw [harrays]
      refine hlayout.congr fun n d => ?_
      rw [chunksOf_insert]
      split
      · next heq => rw [hdata, mem_data_fixed, heq]
      · rfl
    · rw [harrays]
      refine (hlayout.insert_chunk (by omega) hfresh hspace).congr fun n d => ?_
      rw [chunksOf_insert]
      split
      · next heq =>
          rw [hdata, List.mem_append, mem_data_fixed, List.mem_singleton, heq]
          simp
      · next hne => simp [Ne.symm hne]
  have hobjects := hgrown.insert_block hc hi hlarge
  have hchunks : ∀ n d, chunksOf s.pool n d → chunksOf (s.pool.insert bytes a') n d := by
    intro n d hchunk
    rw [chunksOf_insert]
    split
    · next heq => exact hdata d (mem_data_fixed.mpr (heq ▸ hchunk))
    · exact hchunk
  refine ⟨c.block bytes i, { s with pool := s.pool.insert bytes a', lastAlloc := some bytes }, h', ?_,
    rfl, hnone, hobjects, ?_, fun x hx => hmemory x (hlayout.covers_arrays hx)⟩
  · rw [allocate_eq hworking hsmall, hcall]
    rfl
  refine ⟨hworking.maxObjectSize, fun hlast => ?_, fun hlast => ?_, fun hlookup => ?_,
    fun hlookup => ?_, fun hlookup => ?_, fun hobject hsize => ?_, fun harray => ?_, ?_⟩
  · cases hlast
    exact Std.ExtTreeMap.mem_insert_self
  · exact Std.ExtTreeMap.mem_insert.mpr (Or.inr (hworking.lastDealloc hlast))
  · rw [OrderedMap.lookup_insert] at hlookup
    split at hlookup
    · next heq => exact heq ▸ ⟨hlarge, hsmall⟩
    · exact hworking.sizes hlookup
  · refine hworking.serves_insert hkeeps hserves (fun m d hne hchunk => ?_) hlookup
    exact hgrown.chunks_apart hc (hchunks m d hchunk) hne.symm
  · rw [OrderedMap.lookup_insert] at hlookup
    split at hlookup
    · cases hlookup
      exact hinUse
    · exact hworking.inUse hlookup
  · rw [OrderedMap.lookup_insert] at hobject
    split at hobject
    · next heq =>
        cases hobject
        exact ⟨c.data, i, hc, hi, heq.symm⟩
    · obtain ⟨d, j, hchunk, hj, rfl⟩ := hworking.small hobject hsize
      exact ⟨d, j, hchunks _ d hchunk, hj, rfl⟩
  · rename_i d m
    have hold : h.arrays[d]? = some m → (∃ n, chunksOf (s.pool.insert bytes a') n d) ∨
        ((objects.insert (c.block bytes i) bytes)[d]? = some m ∧ maxSmallObjectSize < m) := by
      intro harray
      rcases hworking.kept harray with ⟨n, hchunk⟩ | ⟨hobject, hsize⟩
      · exact Or.inl ⟨n, hchunks n d hchunk⟩
      · refine Or.inr ⟨?_, hsize⟩
        rw [OrderedMap.lookup_insert_ne _ _ fun heq => ?_]
        · exact hobject
        · rw [← heq, hnone] at hobject
          cases hobject
    rcases hcase with ⟨harrays, _⟩ | ⟨hfresh', harrays, _⟩
    · exact hold (harrays ▸ harray)
    · rw [harrays, OrderedMap.lookup_insert] at harray
      split at harray
      · next heq => exact Or.inl ⟨bytes, heq ▸ hfresh' ▸ hc⟩
      · exact hold harray
  · have hpool : OrderedMap.sumOver (fun n a => a.used * n) (s.pool.insert bytes a') +
          (s.fixed bytes).used * bytes =
        OrderedMap.sumOver (fun n a => a.used * n) s.pool + a'.used * bytes :=
      sumOver_insert_fixed
    rw [OrderedMap.sumOver_insert_of_absent _ _ _ hnone, if_pos hsmall, hworking.account]
    rw [hused, Nat.succ_mul] at hpool
    dsimp only
    omega

/-- **A small object goes.** -/
theorem Working.deallocate_spec (hworking : s.Working h objects)
    (hlayout : Layout space h.arrays (chunksOf s.pool) objects)
    (hobject : objects[p]? = some bytes) (hsmall : bytes ≤ maxSmallObjectSize) :
    ∃ (s' : SmallObjectAllocator) (h' : Heap),
      s.deallocate h p bytes = some (s', h') ∧ s'.active = s.active ∧
      Layout space h'.arrays (chunksOf s'.pool) (objects.erase p) ∧
      s'.Working h' (objects.erase p) ∧ ∀ x ≠ p, h'.memory x = h.memory x := by
  have hlarge := hlayout.large hobject
  obtain ⟨d, i, hd, hi, rfl⟩ := hworking.small hobject hsmall
  obtain ⟨c, hc, rfl⟩ := List.mem_map.mp (mem_data_fixed.mpr hd)
  obtain ⟨a', h', hcall, hserves, hinUse, hused, hmemory, hcase⟩ :=
    FixedAllocator.deallocate_spec hworking.serves_fixed hworking.inUse_fixed (by omega)
      hlayout.packed hc hi hobject
  change (s.fixed bytes).deallocate h (c.data + i * bytes) = _ at hcall
  change a'.Serves h' (objects.erase (c.data + i * bytes)) bytes at hserves
  change ∀ x ≠ c.data + i * bytes, h'.memory x = h.memory x at hmemory
  have herased := hlayout.erase_object (c.data + i * bytes)
  have hsub : ∀ {q m : Nat}, (objects.erase (c.data + i * bytes))[q]? = some m →
      objects[q]? = some m := by
    intro q m hq
    rw [OrderedMap.lookup_erase] at hq
    split at hq
    · cases hq
    · exact hq
  -- a chunk stays unless it has no objects left
  have hkeep : ∃ keep : Nat → Prop,
      (∀ n d, chunksOf (s.pool.insert bytes a') n d ↔ chunksOf s.pool n d ∧ keep d) ∧
      (∀ d m, h'.arrays[d]? = some m → h.arrays[d]? = some m ∧ keep d) ∧
      (∀ d ≠ c.data, h'.arrays[d]? = h.arrays[d]?) ∧
      (∀ n d j, chunksOf s.pool n d → j < 255 →
        (objects.erase (c.data + i * bytes))[d + j * n]? = some n → keep d) ∧
      Layout space h'.arrays (chunksOf (s.pool.insert bytes a'))
        (objects.erase (c.data + i * bytes)) := by
    rcases hcase with ⟨harrays, hdata⟩ | ⟨harrays, hperm, hvacant⟩
    · have hiff : ∀ n d, chunksOf (s.pool.insert bytes a') n d ↔ chunksOf s.pool n d := by
        intro n d
        rw [chunksOf_insert]
        split
        · next heq => rw [hdata, mem_data_fixed, heq]
        · rfl
      refine ⟨fun _ => True, fun n d => ?_, fun d m hm => ⟨harrays ▸ hm, trivial⟩,
        fun d _ => by rw [harrays], fun _ _ _ _ _ _ => trivial, ?_⟩
      · rw [hiff, and_true]
      · rw [harrays]
        exact herased.congr hiff
    · have hiff : ∀ n d, chunksOf (s.pool.insert bytes a') n d ↔
          chunksOf s.pool n d ∧ d ≠ c.data := by
        intro n d
        rw [chunksOf_insert]
        split
        · next heq =>
            subst heq
            rw [← mem_data_fixed, hperm.mem_iff, List.mem_cons]
            have hnodup := hperm.nodup_iff.mp hworking.serves_fixed.nodup
            rw [List.nodup_cons] at hnodup
            constructor
            · exact fun hd => ⟨Or.inr hd, fun heq => hnodup.1 (heq ▸ hd)⟩
            · exact fun ⟨hd, hne⟩ => hd.resolve_left hne
        · next hne =>
            exact ⟨fun hchunk => ⟨hchunk, (hlayout.chunks_apart hd hchunk hne).1⟩, And.left⟩
      have hempty : ∀ q m, (objects.erase (c.data + i * bytes))[q]? = some m → c.data ≤ q →
          ¬q < c.data + bytes * 255 := by
        intro q m hq hle hlt
        have hm := herased.large hq
        obtain ⟨rfl, j, hj, rfl⟩ := herased.block_of_mem (x := q) hd hq ⟨le_rfl, by omega⟩ ⟨hle, hlt⟩
        have hnone : (objects.erase (c.data + i * m))[c.data + j * m]? = none := hvacant j hj
        rw [hnone] at hq
        cases hq
      refine ⟨fun d => d ≠ c.data, hiff, fun d m hm => ?_, fun d hne => ?_,
        fun n d j hchunk hj hq => ?_, ?_⟩
      · rw [harrays, OrderedMap.lookup_erase] at hm
        split at hm
        · cases hm
        · next hne => exact ⟨hm, Ne.symm hne⟩
      · rw [harrays, OrderedMap.lookup_erase_ne _ hne.symm]
      · rintro rfl
        have hsize : n * 255 = bytes * 255 :=
          Option.some.inj ((hlayout.chunks hchunk).symm.trans (hlayout.chunks hd))
        have hn := herased.large hq
        have hend := Layout.block_le n c.data hj
        exact hempty _ n hq (Nat.le_add_right _ _) (by omega)
      · rw [harrays]
        exact (herased.erase_array (hlayout.chunks hd) hempty).congr hiff
  obtain ⟨keep, hiff, harrays, hothers, hblocks, hlayout'⟩ := hkeep
  have hend := Layout.block_le bytes c.data hi
  have hkeeps : HeapKeeps h h' objects (objects.erase (c.data + i * bytes)) c.data
      (bytes * 255) :=
    ⟨hothers, fun x hx => hmemory x (by omega), fun x hx =>
      OrderedMap.lookup_erase_ne _ (by omega)⟩
  refine ⟨{ s with pool := s.pool.insert bytes a', lastDealloc := some bytes }, h', ?_, rfl,
    hlayout', ?_, hmemory⟩
  · rw [deallocate_eq hworking hsmall, hcall]
    rfl
  refine ⟨hworking.maxObjectSize, fun hlast => ?_, fun hlast => ?_, fun hlookup => ?_,
    fun hlookup => ?_, fun hlookup => ?_, fun hq hsize => ?_, fun harray => ?_, ?_⟩
  · exact Std.ExtTreeMap.mem_insert.mpr (Or.inr (hworking.lastAlloc hlast))
  · cases hlast
    exact Std.ExtTreeMap.mem_insert_self
  · rw [OrderedMap.lookup_insert] at hlookup
    split at hlookup
    · next heq => exact heq ▸ ⟨hlarge, hsmall⟩
    · exact hworking.sizes hlookup
  · refine hworking.serves_insert hkeeps hserves (fun m e hne hchunk => ?_) hlookup
    exact hlayout.chunks_apart hd hchunk hne.symm
  · rw [OrderedMap.lookup_insert] at hlookup
    split at hlookup
    · cases hlookup
      exact hinUse
    · exact hworking.inUse hlookup
  · obtain ⟨e, j, hchunk, hj, rfl⟩ := hworking.small (hsub hq) hsize
    exact ⟨e, j, (hiff _ e).mpr ⟨hchunk, hblocks _ e j hchunk hj hq⟩, hj, rfl⟩
  · rename_i e m
    obtain ⟨hold, hkept⟩ := harrays e m harray
    rcases hworking.kept hold with ⟨n, hchunk⟩ | ⟨hq, hsize⟩
    · exact Or.inl ⟨n, (hiff n e).mpr ⟨hchunk, hkept⟩⟩
    · refine Or.inr ⟨(OrderedMap.lookup_erase_ne _ fun heq => ?_).trans hq, hsize⟩
      rw [← heq, hobject] at hq
      cases hq
      omega
  · have hpool : OrderedMap.sumOver (fun n a => a.used * n) (s.pool.insert bytes a') +
          (s.fixed bytes).used * bytes =
        OrderedMap.sumOver (fun n a => a.used * n) s.pool + a'.used * bytes :=
      sumOver_insert_fixed
    have hsum := OrderedMap.sumOver_eq_add_erase
      (fun _ n => if n ≤ maxSmallObjectSize then n else 0) objects hobject
    rw [if_pos hsmall, hworking.account] at hsum
    rw [← hused, Nat.succ_mul] at hpool
    dsimp only
    omega

/-! ### Arrays of their own -/

/-- Chunks do not notice an array that is not theirs. -/
theorem Working.serves_of_apart (hworking : s.Working h objects) {objects' : OrderedMap Nat Nat}
    {start size : Nat} (hkeeps : HeapKeeps h h' objects objects' start size)
    (hapart : ∀ m d, chunksOf s.pool m d → 0 < m →
      d ≠ start ∧ (d + m * 255 ≤ start ∨ start + size ≤ d))
    {n : Nat} {a : FixedAllocator} (hlookup : s.pool[n]? = some a) : a.Serves h' objects' n := by
  have hsize := hworking.sizes hlookup
  exact (hworking.serves hlookup).frame hkeeps (by omega) fun d hd =>
    hapart n d ⟨a, hlookup, hd⟩ (by omega)

theorem Working.insert_single (hworking : s.Working h objects)
    (hlayout : Layout space h.arrays (chunksOf s.pool) objects) (hlarge : maxSmallObjectSize < n)
    (hfresh : ∀ x, fresh ≤ x → x < fresh + n → ¬Covers id h.arrays x) :
    s.Working (h.obtain fresh n) (objects.insert fresh n) := by
  have hpos : 0 < n := Nat.zero_lt_of_lt hlarge
  have habsent := hlayout.fresh_absent hpos hfresh
  have hnone : objects[fresh]? = none := by
    rw [Option.eq_none_iff_forall_ne_some]
    intro m hm
    have hsize := hlayout.large hm
    exact hfresh fresh le_rfl (by omega) (hlayout.covers_arrays ⟨fresh, m, hm, le_rfl, by
      rw [id]
      omega⟩)
  have hkeeps : HeapKeeps h (h.obtain fresh n) objects (objects.insert fresh n) fresh n :=
    ⟨fun d hd => OrderedMap.lookup_insert_ne _ _ hd.symm, fun _ _ => rfl, fun x hx =>
      OrderedMap.lookup_insert_ne _ _ (by omega)⟩
  refine { hworking with
    serves := hworking.serves_of_apart hkeeps fun m d hchunk hm => ?_
    small := fun hobject hsize => ?_
    kept := fun harray => ?_
    account := ?_ }
  · have harray := hlayout.chunks hchunk
    refine ⟨fun heq => ?_, apart_of_uncovered harray (by omega) hpos hfresh⟩
    rw [heq, habsent] at harray
    cases harray
  · rw [OrderedMap.lookup_insert] at hobject
    split at hobject
    · cases hobject
      omega
    · exact hworking.small hobject hsize
  · rename_i d m
    change (h.arrays.insert fresh n)[d]? = some m at harray
    rw [OrderedMap.lookup_insert] at harray ⊢
    split at harray
    · next heq =>
        cases harray
        exact Or.inr ⟨if_pos heq, hlarge⟩
    · next hne =>
        rw [if_neg hne]
        exact hworking.kept harray
  · rw [OrderedMap.sumOver_insert_of_absent _ _ _ hnone, if_neg (Nat.not_le.mpr hlarge), Nat.zero_add]
    exact hworking.account

theorem Working.erase_single (hworking : s.Working h objects)
    (hlayout : Layout space h.arrays (chunksOf s.pool) objects) (hobject : objects[p]? = some n)
    (hlarge : maxSmallObjectSize < n) :
    h.arrays[p]? = some n ∧
      Layout space (h.arrays.erase p) (chunksOf s.pool) (objects.erase p) ∧
      s.Working { h with arrays := h.arrays.erase p } (objects.erase p) := by
  have hsingle : h.arrays[p]? = some n ∧ ∀ m, ¬chunksOf s.pool m p := by
    rcases hlayout.placed hobject with ⟨d, i, ⟨a, ha, _⟩, _⟩ | hsingle
    · have := (hworking.sizes ha).2
      omega
    · exact hsingle
  obtain ⟨harray, hnone⟩ := hsingle
  have herased := hlayout.erase_object p
  have hempty : ∀ q m, (objects.erase p)[q]? = some m → p ≤ q → ¬q < p + n := by
    intro q m hq hle hlt
    obtain rfl := herased.eq_of_single harray hnone hq hle hlt
    rw [OrderedMap.lookup_erase, if_pos rfl] at hq
    cases hq
  have hlayout' : Layout space (h.arrays.erase p) (chunksOf s.pool) (objects.erase p) := by
    refine (herased.erase_array harray hempty).congr fun m d => ?_
    constructor
    · intro hchunk
      refine ⟨hchunk, ?_⟩
      rintro rfl
      exact hnone m hchunk
    · exact And.left
  have hkeeps : HeapKeeps h { h with arrays := h.arrays.erase p } objects (objects.erase p) p n :=
    ⟨fun d hd => OrderedMap.lookup_erase_ne _ hd.symm, fun _ _ => rfl, fun x hx =>
      OrderedMap.lookup_erase_ne _ (by omega)⟩
  refine ⟨harray, hlayout', { hworking with
    serves := hworking.serves_of_apart hkeeps fun m d hchunk hm => ?_
    small := fun hq hsize => ?_
    kept := fun hd => ?_
    account := ?_ }⟩
  · have hne : d ≠ p := by
      rintro rfl
      exact hnone m hchunk
    exact ⟨hne, apart_of_arrays hlayout.packed (hlayout.chunks hchunk) harray hne⟩
  · rw [OrderedMap.lookup_erase] at hq
    split at hq
    · cases hq
    · exact hworking.small hq hsize
  · rename_i d m
    change (h.arrays.erase p)[d]? = some m at hd
    rw [OrderedMap.lookup_erase] at hd ⊢
    split at hd
    · cases hd
    · next hne =>
        rw [if_neg hne]
        exact hworking.kept hd
  · have hsum := OrderedMap.sumOver_eq_add_erase
      (fun _ n => if n ≤ maxSmallObjectSize then n else 0) objects hobject
    rw [if_neg (Nat.not_le.mpr hlarge), Nat.zero_add] at hsum
    rw [← hsum]
    exact hworking.account

/-! ### The account -/

theorem foldl_wordAdd {A : Type} (w : Nat) (f : A → Nat) : ∀ (list : List A) (sum : Nat),
    list.foldl (fun res x => Word.add w res (f x)) (Word.wrap w sum) =
      Word.wrap w (sum + (list.map f).sum)
  | [], _ => rfl
  | x :: rest, sum => by
      have hadd : Word.add w (Word.wrap w sum) (f x) = Word.wrap w (sum + f x) :=
        Nat.mod_add_mod _ _ _
      rw [List.foldl_cons, hadd, foldl_wordAdd w f rest, List.map_cons, List.sum_cons, Nat.add_assoc]

theorem currentSize_eq (hserves : a.Serves h objects n) :
    a.currentSize = Word.wrap 32 (a.used * n) := by
  have hterm : ∀ c : Chunk, (a.numBlocks.toNat - c.blocksAvailable.toNat) * a.blockSize = c.used * n := by
    intro c
    rw [hserves.numBlocks, hserves.blockSize]
    rfl
  have hsum : (a.chunks.map fun c => c.used * n).sum = a.used * n := by
    rw [FixedAllocator.used, ← List.sum_map_mul_right]
  unfold FixedAllocator.currentSize
  simp only [hterm]
  rw [← hsum, ← Nat.zero_add (List.sum _)]
  exact foldl_wordAdd 32 (fun c : Chunk => c.used * n) a.chunks 0

/-- The count at the end is that of the small objects. -/
theorem Working.stillAllocated_eq (hworking : s.Working h objects) :
    s.stillAllocated = Word.wrap 32
      (OrderedMap.sumOver (fun _ n => if n ≤ maxSmallObjectSize then n else 0) objects) := by
  have hterm : ∀ (still : Nat), ∀ entry ∈ s.pool.toList,
      Word.add 32 still entry.2.currentSize = Word.add 32 still (entry.2.used * entry.1) := by
    rintro still ⟨n, a⟩ hmem
    rw [currentSize_eq (hworking.serves ((OrderedMap.mem_toList _).mp hmem)), Word.add_wrap]
  rw [hworking.account, stillAllocated, OrderedMap.sumOver, ← Nat.zero_add (List.sum _),
    List.foldl_ext _ _ 0 hterm]
  exact foldl_wordAdd 32 (fun entry : Nat × FixedAllocator => entry.2.used * entry.1) s.pool.toList 0

/-- No array is kept without an object in it. -/
theorem Working.exists_object (hworking : s.Working h objects) (harray : h.arrays[d]? = some m) :
    ∃ p n, objects[p]? = some n ∧ d ≤ p ∧ p + n ≤ d + m := by
  rcases hworking.kept harray with ⟨n, a, hlookup, hd⟩ | ⟨hobject, _⟩
  · obtain ⟨c, hc, rfl⟩ := List.mem_map.mp hd
    obtain ⟨harray', free, hlists⟩ := (hworking.serves hlookup).chunks c hc
    have hmissing : c.blocksAvailable.toNat < 255 := by
      refine lt_of_le_of_ne hlists.listed.available_le fun hfull => ?_
      exact hworking.inUse hlookup c hc (UInt8.toNat_inj.mp hfull)
    obtain ⟨i, hi, hused⟩ := hlists.listed.exists_used hmissing
    have hsize : m = n * 255 := Option.some.inj (harray.symm.trans harray')
    exact ⟨c.block n i, n, hlists.occupied i hi hused, Chunk.le_block c n i,
      hsize ▸ Chunk.block_le c n hi⟩
  · exact ⟨d, m, hobject, le_rfl, le_rfl⟩

/-- A program writes to its objects, and to memory that is not from here. -/
theorem Working.write (hworking : s.Working h objects)
    (hlayout : Layout space h.arrays (chunksOf s.pool) objects)
    (hx : Covers id objects x ∨ ¬Covers id h.arrays x) (byte : UInt8) :
    s.Working { h with memory := Function.update h.memory x byte } objects := by
  refine { hworking with serves := fun hlookup => ?_ }
  rename_i n a
  have hsize := hworking.sizes hlookup
  have hserves := hworking.serves hlookup
  refine { hserves with chunks := fun c hc => ?_ }
  obtain ⟨harray, free, hlists⟩ := hserves.chunks c hc
  have hchunk : chunksOf s.pool n c.data := ⟨a, hlookup, List.mem_map_of_mem hc⟩
  refine ⟨harray, free, hlists.congr (fun i hi hvacant => Function.update_of_ne ?_ _ _)
    fun _ _ => rfl⟩
  have hend := Chunk.block_le c n hi
  have hle := Chunk.le_block c n i
  rintro rfl
  rcases hx with hcovers | huncovered
  · exact hlayout.not_covers_block hchunk hi (by omega) hvacant hcovers
  · exact huncovered ⟨c.data, n * 255, harray, hle, by
      rw [id]
      omega⟩

end SmallObjectAllocator

/-! ### Runs -/

namespace SmallObjects

open Transition

variable {s s' : SmallObjects}

/-- How much memory the system is asked for, if it is asked. -/
def request (s : SmallObjects) (size : Nat) : Nat :=
  if s.allocator.active ∧ size ≤ maxSmallObjectSize then size * 255 else size

/-- Objects have a table of virtual functions. The system gives out memory that is not in use. An
object is deleted once and with its own size, and memory that was given back is not written to. -/
def Op.Lawful (space : Nat) (s : SmallObjects) : Op → Prop
  | .new size fresh => 2 ≤ size ∧ fresh + s.request size ≤ space ∧
      ∀ x, fresh ≤ x → x < fresh + s.request size → ¬s.heap.Owns x
  | .delete p size => s.objects[p]? = some size
  | .write address _ => Covers id s.objects address ∨ ¬s.heap.Owns address
  | .quit => s.allocator.active = true

/-- What has become of the objects. -/
def Op.Effect (s s' : SmallObjects) : Op → Prop
  | .new size _ =>
      (∃ p, (∀ x, p ≤ x → x < p + size → ¬Covers id s.objects x) ∧
        s'.objects = s.objects.insert p size) ∨
      (1024 * 1024 * 1024 < size ∧ s'.objects = s.objects)
  | .delete p _ => s'.objects = s.objects.erase p
  | .write address byte => s'.objects = s.objects ∧ s'.heap.memory address = byte
  | .quit => s'.objects = s.objects

structure Sound (space : Nat) (s : SmallObjects) : Prop where
  layout : Layout space s.heap.arrays (chunksOf s.allocator.pool) s.objects
  working : s.allocator.active = true → s.allocator.Working s.heap s.objects

theorem sound_start (memory : Memory) : Sound space (start memory) where
  layout := by
    refine Layout.empty.congr fun n d => ?_
    constructor
    · rintro ⟨a, ha, _⟩
      exact absurd ha (by simp [start, SmallObjectAllocator.new])
    · exact False.elim
  working := fun _ => by
    refine ⟨rfl, nofun, nofun, ?_, ?_, ?_, ?_, ?_, ?_⟩
    all_goals simp [start, SmallObjectAllocator.new]

theorem Sound.objects_none (hsound : s.Sound space) (hfresh : ¬s.heap.Owns p) : s.objects[p]? = none := by
  rw [Option.eq_none_iff_forall_ne_some]
  intro n hn
  have hlarge := hsound.layout.large hn
  exact hfresh (Heap.owns_iff.mpr (hsound.layout.covers_arrays ⟨p, n, hn, le_rfl, by
    rw [id]
    omega⟩))

theorem step_new {size : Nat} {result : Option Nat × SmallObjectAllocator × Heap}
    (hresult : s.operatorNew size fresh = some result) :
    s.step (.new size fresh) = some ⟨result.2.1, result.2.2,
      result.1.elim s.objects fun p => s.objects.insert p size⟩ := by
  change (s.operatorNew size fresh >>= _) = _
  rw [hresult]
  rfl

theorem step_delete {size : Nat} {result : SmallObjectAllocator × Heap}
    (hresult : s.operatorDelete p size = some result) :
    s.step (.delete p size) = some ⟨result.1, result.2, s.objects.erase p⟩ := by
  change (s.operatorDelete p size >>= _) = _
  rw [hresult]
  rfl

/-- What a step comes to. -/
def Keeps (space : Nat) (op : Op) (s s' : SmallObjects) : Prop :=
  s'.Sound space ∧ op.Effect s s' ∧
    ∀ x, Covers id s.objects x → Covers id s'.objects x → (∀ byte, op ≠ .write x byte) →
      s'.heap.memory x = s.heap.memory x

theorem Sound.new (hsound : s.Sound space) {size : Nat} (hlawful : (Op.new size fresh).Lawful space s) :
    ∃ s', s.step (.new size fresh) = some s' ∧ Keeps space (.new size fresh) s s' := by
  obtain ⟨hlarge, hspace, hfresh⟩ := hlawful
  have hsingle : s.request size = size →
      Layout space (s.heap.arrays.insert fresh size) (chunksOf s.allocator.pool)
        (s.objects.insert fresh size) ∧
      ∀ x, fresh ≤ x → x < fresh + size → ¬Covers id s.objects x := by
    intro hrequest
    rw [hrequest] at hspace hfresh
    refine ⟨hsound.layout.insert_single hlarge (fun x hle hlt hcovers =>
      hfresh x hle hlt (Heap.owns_iff.mpr hcovers)) hspace, fun x hle hlt hcovers => ?_⟩
    exact hfresh x hle hlt (Heap.owns_iff.mpr (hsound.layout.covers_arrays hcovers))
  cases hactive : s.allocator.active with
  | false =>
      have hrequest : s.request size = size := by
        rw [request, hactive]
        simp
      obtain ⟨hlayout, hfree⟩ := hsingle hrequest
      refine ⟨⟨s.allocator, s.heap.obtain fresh size, s.objects.insert fresh size⟩, ?_,
        ⟨hlayout, fun h => absurd (hactive.symm.trans h) Bool.false_ne_true⟩,
        Or.inl ⟨fresh, hfree, rfl⟩, fun _ _ _ _ => rfl⟩
      have hcall : s.operatorNew size fresh =
          some (some fresh, s.allocator, s.heap.obtain fresh size) :=
        if_neg (by rw [hactive]; exact Bool.false_ne_true)
      exact step_new hcall
  | true =>
      have hworking := hsound.working hactive
      have hcall : ∀ result, s.allocator.allocate s.heap size fresh = some result →
          s.step (.new size fresh) = some ⟨result.2.1, result.2.2,
            result.1.elim s.objects fun p => s.objects.insert p size⟩ :=
        fun result hresult => step_new ((if_pos hactive).trans hresult)
      by_cases hsmall : size ≤ maxSmallObjectSize
      · have hrequest : s.request size = size * 255 := if_pos ⟨hactive, hsmall⟩
        rw [hrequest] at hspace hfresh
        obtain ⟨p, allocator, heap, hresult, hsame, hnone, hlayout, hworking', hmemory⟩ :=
          hworking.allocate_spec hsound.layout hlarge hsmall
            (fun x hle hlt hcovers => hfresh x hle hlt (Heap.owns_iff.mpr hcovers)) hspace
        refine ⟨_, hcall _ hresult, ⟨hlayout, fun _ => hworking'⟩, Or.inl ⟨p, fun x hle hlt => ?_, rfl⟩,
          fun x hx _ _ => hmemory x hx⟩
        exact Layout.not_covers_of_insert hlayout.objects_packed hnone hle hlt
      · have hlt := Nat.not_le.mp hsmall
        have hrequest : s.request size = size := if_neg fun hand => hsmall hand.2
        obtain ⟨hlayout, hfree⟩ := hsingle hrequest
        rw [hrequest] at hfresh
        have hmax : s.allocator.maxObjectSize < size := by rwa [hworking.maxObjectSize]
        cases hmalloc : rsMalloc size with
        | true =>
            have hresult : s.allocator.allocate s.heap size fresh =
                some (some fresh, s.allocator, s.heap.obtain fresh size) := by
              rw [SmallObjectAllocator.allocate, if_pos hmax, hmalloc, if_pos rfl]
            refine ⟨_, hcall _ hresult, ⟨hlayout, fun _ => ?_⟩, Or.inl ⟨fresh, hfree, rfl⟩,
              fun _ _ _ _ => rfl⟩
            exact hworking.insert_single hsound.layout hlt fun x hle hlt hcovers =>
              hfresh x hle hlt (Heap.owns_iff.mpr hcovers)
        | false =>
            have hresult : s.allocator.allocate s.heap size fresh =
                some (none, s.allocator, s.heap) := by
              rw [SmallObjectAllocator.allocate, if_pos hmax, hmalloc, if_neg Bool.false_ne_true]
            have hhuge : 1024 * 1024 * 1024 < size := by
              have hno := of_decide_eq_false hmalloc
              omega
            exact ⟨_, hcall _ hresult, hsound, Or.inr ⟨hhuge, rfl⟩, fun _ _ _ _ => rfl⟩

theorem Sound.delete (hsound : s.Sound space) {size : Nat} (hobject : s.objects[p]? = some size) :
    ∃ s', s.step (.delete p size) = some s' ∧ Keeps space (.delete p size) s s' := by
  have hlarge := hsound.layout.large hobject
  have hpacked := hsound.layout.objects_packed
  have hother : ∀ x, Covers id (s.objects.erase p) x → x ≠ p := by
    intro x hcovers heq
    rw [hpacked.covers_erase hobject, heq] at hcovers
    exact hcovers.2 ⟨le_rfl, by
      rw [id]
      omega⟩
  cases hactive : s.allocator.active with
  | false =>
      refine ⟨⟨s.allocator, s.heap, s.objects.erase p⟩, ?_,
        ⟨hsound.layout.erase_object p, fun h => absurd (hactive.symm.trans h) Bool.false_ne_true⟩,
        rfl, fun _ _ _ _ => rfl⟩
      exact step_delete (if_neg (by rw [hactive]; exact Bool.false_ne_true))
  | true =>
      have hworking := hsound.working hactive
      have hcall : ∀ result, s.allocator.deallocate s.heap p size = some result →
          s.step (.delete p size) = some ⟨result.1, result.2, s.objects.erase p⟩ :=
        fun result hresult => step_delete ((if_pos hactive).trans hresult)
      by_cases hsmall : size ≤ maxSmallObjectSize
      · obtain ⟨allocator, heap, hresult, _, hlayout, hworking', hmemory⟩ :=
          hworking.deallocate_spec hsound.layout hobject hsmall
        exact ⟨_, hcall _ hresult, ⟨hlayout, fun _ => hworking'⟩, rfl,
          fun x _ hx _ => hmemory x (hother x hx)⟩
      · have hlt := Nat.not_le.mp hsmall
        obtain ⟨harray, hlayout, hworking'⟩ := hworking.erase_single hsound.layout hobject hlt
        have hmax : s.allocator.maxObjectSize < size := by rwa [hworking.maxObjectSize]
        have hmem : p ∈ s.heap.arrays := by
          rw [Std.ExtTreeMap.mem_iff_isSome_getElem?, harray]
          rfl
        have hresult : s.allocator.deallocate s.heap p size =
            some (s.allocator, { s.heap with arrays := s.heap.arrays.erase p }) := by
          rw [SmallObjectAllocator.deallocate, if_pos hmax, Heap.release, if_pos hmem]
          rfl
        exact ⟨_, hcall _ hresult, ⟨hlayout, fun _ => hworking'⟩, rfl, fun _ _ _ _ => rfl⟩

theorem Sound.write (hsound : s.Sound space) {address : Nat} {byte : UInt8}
    (hlawful : (Op.write address byte).Lawful space s) :
    ∃ s', s.step (.write address byte) = some s' ∧ Keeps space (.write address byte) s s' := by
  refine ⟨_, rfl, ⟨hsound.layout, fun hactive => ?_⟩, ⟨rfl, Function.update_self _ _ _⟩,
    fun x _ _ hother => Function.update_of_ne ?_ _ _⟩
  · refine (hsound.working hactive).write hsound.layout ?_ byte
    exact hlawful.imp_right fun hnot hcovers => hnot (Heap.owns_iff.mpr hcovers)
  · rintro rfl
    exact hother byte rfl

/-- **One step.** -/
theorem Sound.step (hsound : s.Sound space) {op : Op} (hlawful : op.Lawful space s) :
    ∃ s', s.step op = some s' ∧ Keeps space op s s' := by
  cases op with
  | new size fresh => exact hsound.new hlawful
  | delete p size => exact hsound.delete hlawful
  | write address byte => exact hsound.write hlawful
  | quit => exact ⟨_, rfl, ⟨hsound.layout, nofun⟩, rfl, fun _ _ _ _ => rfl⟩

theorem sound_of_reaches {memory : Memory}
    (hreach : Reaches SmallObjects.step (fun s op => op.Lawful space s) (start memory) s) :
    s.Sound space := by
  refine hreach.invariant (Sound space) (fun before op after hsound hlawful hstep => ?_)
    (sound_start memory)
  obtain ⟨after', hstep', hkeeps⟩ := hsound.step hlawful
  cases hstep.symm.trans hstep'
  exact hkeeps.1

/-- **Small objects.** After any run the objects lie apart from each other in arrays from the system.
Until the end every array has an object in it, and the count of what is still allocated is right. No
call fails, an object that is returned is apart from all others, and these keep their bytes. -/
theorem objects_kept_apart (memory : Memory)
    (hreach : Reaches SmallObjects.step (fun s op => op.Lawful space s) (start memory) s) :
    Packed id 0 space s.objects ∧ (∀ x, Covers id s.objects x → s.heap.Owns x) ∧
    (s.allocator.active = true →
      s.allocator.stillAllocated = Word.wrap 32
        (OrderedMap.sumOver (fun _ n => if n ≤ maxSmallObjectSize then n else 0) s.objects) ∧
      ∀ d m : Nat, s.heap.arrays[d]? = some m →
        ∃ p n : Nat, s.objects[p]? = some n ∧ d ≤ p ∧ p + n ≤ d + m) ∧
    ∀ op : Op, op.Lawful space s → ∃ s', s.step op = some s' ∧ op.Effect s s' ∧
      ∀ x, Covers id s.objects x → Covers id s'.objects x → (∀ byte, op ≠ .write x byte) →
        s'.heap.memory x = s.heap.memory x := by
  have hsound := sound_of_reaches hreach
  refine ⟨hsound.layout.objects_packed, fun x hx =>
    Heap.owns_iff.mpr (hsound.layout.covers_arrays hx), fun hactive => ?_, fun op hlawful => ?_⟩
  · have hworking := hsound.working hactive
    exact ⟨hworking.stillAllocated_eq, fun d m harray => hworking.exists_object harray⟩
  · obtain ⟨s', hstep, _, heffect, hmemory⟩ := hsound.step hlawful
    exact ⟨s', hstep, heffect, hmemory⟩

/-- The first object. -/
theorem objects_kept_apart_first :
    ∃ s, (start fun _ => 0).step (.new 8 1000) = some s ∧ Packed id 0 4096 s.objects ∧
      ∀ op : Op, op.Lawful 4096 s → ∃ s', s.step op = some s' := by
  have hlawful : (Op.new 8 1000).Lawful 4096 (start fun _ => 0) := by
    refine ⟨by decide, by decide, ?_⟩
    rintro x _ _ ⟨array, harray, _⟩
    rw [OrderedMap.mem_toList] at harray
    exact absurd harray (by simp [start])
  obtain ⟨s, hstep, _⟩ := (sound_start fun _ => 0).new hlawful
  have hreach : Reaches SmallObjects.step (fun s op => op.Lawful 4096 s) (start fun _ => 0) s :=
    (Reaches.refl _).tail hlawful hstep
  have hrun := objects_kept_apart (fun _ => 0) hreach
  refine ⟨s, hstep, hrun.1, fun op hop => ?_⟩
  obtain ⟨s', hs', _⟩ := hrun.2.2.2 op hop
  exact ⟨s', hs'⟩

end SmallObjects

end RetroShare.Util
