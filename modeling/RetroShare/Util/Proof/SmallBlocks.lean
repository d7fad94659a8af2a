import RetroShare.Foundation.Extent
import RetroShare.Foundation.FreeList
import RetroShare.Util.SmallObject

/-!
# Blocks of one size

The free blocks of a chunk are a list threaded through them. A block is given out that holds no object,
and nothing outside its chunk changes.
-/

namespace RetroShare.Util

open Bytes Extent FreeList

variable {h h' : Heap} {objects objects' : OrderedMap Nat Nat}
  {bytes i j fresh space : Nat} {c : Chunk} {a : FixedAllocator} {free : List Nat}

/-! ### Memory -/

theorem Heap.owns_iff {address : Nat} : h.Owns address ↔ Covers id h.arrays address := by
  constructor
  · rintro ⟨⟨start, size⟩, hmem, hle, hlt⟩
    exact ⟨start, size, (OrderedMap.mem_toList _).mp hmem, hle, hlt⟩
  · rintro ⟨start, size, hmem, hle, hlt⟩
    exact ⟨(start, size), (OrderedMap.mem_toList _).mpr hmem, hle, hlt⟩

theorem Heap.write_eq {address : Nat} {byte : UInt8} (howns : h.Owns address) :
    h.write address byte = some { h with memory := Function.update h.memory address byte } :=
  if_pos howns

/-- The writes of `Chunk.init`. -/
theorem Heap.writes_spec {address : Nat} (hbytes : 0 < bytes) : ∀ count : Nat,
    (∀ i < count, h.Owns (address + i * bytes)) →
    ∃ memory : Memory,
      (List.range count).foldlM
          (fun h i => h.write (address + i * bytes) (UInt8.ofNat (i + 1))) h =
        some { h with memory := memory } ∧
      (∀ i < count, memory (address + i * bytes) = UInt8.ofNat (i + 1)) ∧
      ∀ x, (∀ i < count, x ≠ address + i * bytes) → memory x = h.memory x
  | 0, _ => ⟨h.memory, rfl, nofun, fun _ _ => rfl⟩
  | count + 1, howns => by
      obtain ⟨memory, hwrites, hheads, hothers⟩ :=
        writes_spec hbytes count fun i hi => howns i (Nat.lt_succ_of_lt hi)
      refine ⟨Function.update memory (address + count * bytes) (UInt8.ofNat (count + 1)), ?_, ?_, ?_⟩
      · rw [List.range_succ, List.foldlM_append, hwrites]
        have hlast : Heap.Owns { h with memory := memory } (address + count * bytes) :=
          howns count (Nat.lt_succ_self _)
        simp only [Option.bind_eq_bind, Option.bind_some, List.foldlM_cons, List.foldlM_nil,
          Heap.write_eq hlast]
        rfl
      · intro i hi
        rcases Nat.lt_succ_iff_lt_or_eq.mp hi with hi | rfl
        · have hne : address + i * bytes ≠ address + count * bytes := by
            have := Nat.mul_lt_mul_of_pos_right hi hbytes
            omega
          rw [Function.update_of_ne hne, hheads i hi]
        · rw [Function.update_self]
      · intro x hx
        rw [Function.update_of_ne (hx count (Nat.lt_succ_self _))]
        exact hothers x fun i hi => hx i (Nat.lt_succ_of_lt hi)

/-- Outside one piece of memory all arrays, bytes and objects are as they were. -/
structure HeapKeeps (h h' : Heap) (objects objects' : OrderedMap Nat Nat) (start size : Nat) :
    Prop where
  arrays : ∀ d ≠ start, h'.arrays[d]? = h.arrays[d]?
  memory : ∀ x, x < start ∨ start + size ≤ x → h'.memory x = h.memory x
  objects : ∀ x, x < start ∨ start + size ≤ x → objects'[x]? = objects[x]?

/-- Two arrays. -/
theorem apart_of_arrays {d e m n : Nat} (hpacked : Packed id 0 space h.arrays)
    (hd : h.arrays[d]? = some m) (he : h.arrays[e]? = some n) (hne : d ≠ e) :
    d + m ≤ e ∨ e + n ≤ d := by
  rcases lt_or_gt_of_ne hne with hlt | hlt
  · exact Or.inl (hpacked.separated hd he hlt)
  · exact Or.inr (hpacked.separated he hd hlt)

/-- An array, and memory that is not in any. -/
theorem apart_of_uncovered {d m start size : Nat} (hd : h.arrays[d]? = some m) (hm : 0 < m)
    (hsize : 0 < size) (hfresh : ∀ x, start ≤ x → x < start + size → ¬Covers id h.arrays x) :
    d + m ≤ start ∨ start + size ≤ d := by
  by_contra hover
  push Not at hover
  have hlarge := hfresh (max d start) (le_max_right _ _) (by omega)
  exact hlarge ⟨d, m, hd, le_max_left _ _, by
    rw [id]
    omega⟩

/-! ### One chunk -/

namespace Chunk

/-- Where a block begins. -/
def block (c : Chunk) (blockSize i : Nat) : Nat := c.data + i * blockSize

def links (c : Chunk) (memory : Memory) (blockSize i : Nat) : Nat :=
  (memory (c.block blockSize i)).toNat

def used (c : Chunk) : Nat := 255 - c.blocksAvailable.toNat

/-- The listed blocks hold no objects, and all others do. -/
structure Lists (c : Chunk) (memory : Memory) (objects : OrderedMap Nat Nat) (blockSize : Nat)
    (free : List Nat) : Prop where
  listed : Listed 255 (c.links memory blockSize) c.firstAvailableBlock.toNat
    c.blocksAvailable.toNat free
  vacant : ∀ i ∈ free, objects[c.block blockSize i]? = none
  occupied : ∀ i < 255, i ∉ free → objects[c.block blockSize i]? = some blockSize

/-- The chunk has its array, and its free blocks are listed. -/
structure Serves (c : Chunk) (h : Heap) (objects : OrderedMap Nat Nat) (blockSize : Nat) :
    Prop where
  array : h.arrays[c.data]? = some (blockSize * 255)
  lists : ∃ free, c.Lists h.memory objects blockSize free

theorem block_inj (hbytes : 0 < bytes) (heq : c.block bytes i = c.block bytes j) : i = j :=
  Nat.eq_of_mul_eq_mul_right hbytes (Nat.add_left_cancel heq)

theorem block_end_le (c : Chunk) (bytes : Nat) (hlt : i < j) : c.block bytes i + bytes ≤ c.block bytes j := by
  have hmul := Nat.mul_le_mul_right bytes (Nat.succ_le_of_lt hlt)
  rw [Nat.succ_mul] at hmul
  unfold block
  omega

theorem le_block (c : Chunk) (bytes i : Nat) : c.data ≤ c.block bytes i := Nat.le_add_right _ _

theorem block_le (c : Chunk) (bytes : Nat) (hi : i < 255) : c.block bytes i + bytes ≤ c.data + bytes * 255 := by
  have hend := block_end_le c bytes hi
  unfold block at hend ⊢
  omega

theorem Serves.owns (hserves : c.Serves h objects bytes) (hbytes : 0 < bytes) (hi : i < 255) :
    h.Owns (c.block bytes i) := by
  have hend := block_le c bytes hi
  exact Heap.owns_iff.mpr ⟨c.data, bytes * 255, hserves.array, le_block c bytes i, by
    rw [id]
    omega⟩

theorem Lists.congr {memory memory' : Memory} (hlists : c.Lists memory objects bytes free)
    (hmemory : ∀ i < 255, objects[c.block bytes i]? = none →
      memory' (c.block bytes i) = memory (c.block bytes i))
    (hobjects : ∀ i < 255, objects'[c.block bytes i]? = objects[c.block bytes i]?) :
    c.Lists memory' objects' bytes free where
  listed := by
    refine hlists.listed.congr fun i hi => ?_
    rw [links, links, hmemory i (hlists.listed.bounded i hi) (hlists.vacant i hi)]
  vacant := by
    intro i hi
    rw [hobjects i (hlists.listed.bounded i hi)]
    exact hlists.vacant i hi
  occupied := by
    intro i hi hnot
    rw [hobjects i hi]
    exact hlists.occupied i hi hnot

/-- What happens elsewhere does not matter. -/
theorem Serves.frame (hserves : c.Serves h objects bytes) {start size : Nat}
    (hkeeps : HeapKeeps h h' objects objects' start size) (hbytes : 0 < bytes)
    (hne : c.data ≠ start) (hapart : c.data + bytes * 255 ≤ start ∨ start + size ≤ c.data) :
    c.Serves h' objects' bytes := by
  obtain ⟨harray, free, hlists⟩ := hserves
  have houtside : ∀ i < 255, c.block bytes i < start ∨ start + size ≤ c.block bytes i := by
    intro i hi
    have hend := block_le c bytes hi
    have hle := le_block c bytes i
    omega
  refine ⟨(hkeeps.arrays _ hne).trans harray, free, ?_⟩
  exact hlists.congr (fun i hi _ => hkeeps.memory _ (houtside i hi))
    fun i hi => hkeeps.objects _ (houtside i hi)

theorem Serves.vacant_of_full (hserves : c.Serves h objects bytes)
    (hfull : c.blocksAvailable = blocksPerChunk) (hi : i < 255) :
    objects[c.block bytes i]? = none := by
  obtain ⟨free, hlists⟩ := hserves.lists
  have hlisted := hlists.listed
  have hblocks : blocksPerChunk.toNat = 255 := rfl
  rw [hfull, hblocks] at hlisted
  exact hlists.vacant i (hlisted.mem_of_full hi)

theorem toNat_pred {n : UInt8} (hn : n ≠ 0) : (n - 1).toNat = n.toNat - 1 := by
  have hpos : 1 ≤ n.toNat := by
    rw [Nat.one_le_iff_ne_zero]
    exact fun hzero => hn (UInt8.toNat_inj.mp hzero)
  exact UInt8.toNat_sub_of_le n 1 hpos

theorem toNat_succ {n : UInt8} (hn : n.toNat < 255) : (n + 1).toNat = n.toNat + 1 := by
  rw [UInt8.toNat_add]
  exact Nat.mod_eq_of_lt (Nat.succ_lt_succ hn)

/-- The first free block is given out. -/
theorem allocate_spec (hserves : c.Serves h objects bytes) (hbytes : 2 ≤ bytes)
    (havailable : c.blocksAvailable ≠ 0) :
    ∃ i < 255, ∃ c' : Chunk, c.allocate h bytes = some (some (c.block bytes i), c') ∧
      c'.data = c.data ∧ c'.blocksAvailable.toNat + 1 = c.blocksAvailable.toNat ∧
      objects[c.block bytes i]? = none ∧
      c'.Serves h (objects.insert (c.block bytes i) bytes) bytes := by
  obtain ⟨free, hlists⟩ := hserves.lists
  have hpos : 0 < c.blocksAvailable.toNat := by
    rw [Nat.pos_iff_ne_zero]
    exact fun hzero => havailable (UInt8.toNat_inj.mp hzero)
  obtain ⟨rest, rfl, hrest⟩ := hlists.listed.take hpos
  have hfirst := hlists.listed.bounded _ List.mem_cons_self
  have hread : h.read (c.block bytes c.firstAvailableBlock.toNat) =
      some (h.memory (c.block bytes c.firstAvailableBlock.toNat)) :=
    if_pos (hserves.owns (by omega) hfirst)
  have hnodup := List.nodup_cons.mp hlists.listed.nodup
  refine ⟨c.firstAvailableBlock.toNat, hfirst,
    ⟨c.data, h.memory (c.block bytes c.firstAvailableBlock.toNat), c.blocksAvailable - 1⟩,
    ?_, rfl, ?_, hlists.vacant _ List.mem_cons_self, hserves.array, rest, ?_, ?_, ?_⟩
  · unfold allocate
    rw [if_neg havailable, if_pos hbytes]
    unfold block at hread
    simp only [hread, Option.bind_eq_bind, Option.bind_some, Option.pure_def]
    rfl
  · show (c.blocksAvailable - 1).toNat + 1 = _
    rw [toNat_pred havailable]
    omega
  · show Listed 255 _ _ (c.blocksAvailable - 1).toNat rest
    rw [toNat_pred havailable]
    exact hrest
  · intro i hi
    have hne : c.block bytes c.firstAvailableBlock.toNat ≠ c.block bytes i := fun heq =>
      hnodup.1 (block_inj (by omega) heq ▸ hi)
    exact (OrderedMap.lookup_insert_ne _ _ hne).trans
      (hlists.vacant i (List.mem_cons_of_mem _ hi))
  · intro i hi hnot
    change (objects.insert _ bytes)[c.block bytes i]? = some bytes
    rw [OrderedMap.lookup_insert]
    split
    · rfl
    · next hne =>
        refine hlists.occupied i hi fun hmem => ?_
        rcases List.mem_cons.mp hmem with rfl | hmem
        · exact hne rfl
        · exact hnot hmem

/-- The block of an object comes back. -/
theorem deallocate_spec (hserves : c.Serves h objects bytes) (hbytes : 0 < bytes)
    (hi : i < 255) (hobject : objects[c.block bytes i]? = some bytes) :
    ∃ (c' : Chunk) (h' : Heap), c.deallocate h (c.block bytes i) bytes = some (c', h') ∧
      c'.data = c.data ∧ c'.blocksAvailable.toNat = c.blocksAvailable.toNat + 1 ∧
      h'.arrays = h.arrays ∧ (∀ x ≠ c.block bytes i, h'.memory x = h.memory x) ∧
      c'.Serves h' (objects.erase (c.block bytes i)) bytes := by
  obtain ⟨free, hlists⟩ := hserves.lists
  have hused : i ∉ free := by
    intro hmem
    rw [hlists.vacant i hmem] at hobject
    cases hobject
  have hput := hlists.listed.put hi hused
  have hroom : c.blocksAvailable.toNat < 255 := hput.available_le
  have hoffset : c.block bytes i - c.data = i * bytes := Nat.add_sub_cancel_left _ _
  have hblock : (UInt8.ofNat i).toNat = i := by
    rw [UInt8.toNat_ofNat']
    exact Nat.mod_eq_of_lt (by omega)
  refine ⟨⟨c.data, UInt8.ofNat i, c.blocksAvailable + 1⟩,
    { h with memory := Function.update h.memory (c.block bytes i) c.firstAvailableBlock },
    ?_, rfl, toNat_succ hroom, rfl, fun x hx => Function.update_of_ne hx _ _,
    hserves.array, i :: free, ?_, ?_, ?_⟩
  · unfold deallocate
    rw [hoffset, Nat.mul_mod_left, Nat.mul_div_cancel _ hbytes, if_pos ⟨le_block c bytes i, rfl⟩,
      Heap.write_eq (hserves.owns hbytes hi)]
    simp only [Option.bind_eq_bind, Option.bind_some, hblock, if_true, Option.pure_def]
  · show Listed 255 _ (UInt8.ofNat i).toNat (c.blocksAvailable + 1).toNat (i :: free)
    rw [hblock, toNat_succ hroom]
    refine hput.congr fun j _ => ?_
    by_cases hji : j = i
    · subst hji
      rw [Function.update_self, links]
      exact congrArg UInt8.toNat (Function.update_self _ _ _)
    · have hne : c.block bytes j ≠ c.block bytes i := fun heq => hji (block_inj hbytes heq)
      rw [Function.update_of_ne hji, links, links]
      exact congrArg UInt8.toNat (Function.update_of_ne hne _ _)
  · intro j hj
    change (objects.erase _)[c.block bytes j]? = none
    rw [OrderedMap.lookup_erase]
    split
    · rfl
    · next hne =>
        rcases List.mem_cons.mp hj with rfl | hj
        · exact absurd rfl hne
        · exact hlists.vacant j hj
  · intro j hj hnot
    have hji : i ≠ j := fun heq => hnot (heq ▸ List.mem_cons_self)
    have hne : c.block bytes i ≠ c.block bytes j := fun heq => hji (block_inj hbytes heq)
    exact (OrderedMap.lookup_erase_ne _ hne).trans
      (hlists.occupied j hj fun hmem => hnot (List.mem_cons_of_mem _ hmem))

/-- A new chunk in a new array. -/
theorem init_spec (h : Heap) (hbytes : 0 < bytes)
    (hvacant : ∀ x, fresh ≤ x → x < fresh + bytes * 255 → objects[x]? = none) :
    ∃ h' : Heap, Chunk.init h fresh bytes blocksPerChunk = some (⟨fresh, 0, blocksPerChunk⟩, h') ∧
      h'.arrays = h.arrays.insert fresh (bytes * 255) ∧
      (∀ x, x < fresh ∨ fresh + bytes * 255 ≤ x → h'.memory x = h.memory x) ∧
      (⟨fresh, 0, blocksPerChunk⟩ : Chunk).Serves h' objects bytes := by
  have howns : ∀ i < 255, (h.obtain fresh (bytes * 255)).Owns (fresh + i * bytes) := by
    intro i hi
    have hend : fresh + i * bytes + bytes ≤ fresh + bytes * 255 := block_le ⟨fresh, 0, 0⟩ bytes hi
    refine Heap.owns_iff.mpr ⟨fresh, bytes * 255, OrderedMap.lookup_insert_self _ _ _,
      Nat.le_add_right _ _, ?_⟩
    rw [id]
    omega
  obtain ⟨memory, hwrites, hheads, hothers⟩ := Heap.writes_spec hbytes 255 howns
  have hlink : ∀ i < 255, (memory (fresh + i * bytes)).toNat = i + 1 := by
    intro i hi
    rw [hheads i hi, UInt8.toNat_ofNat']
    exact Nat.mod_eq_of_lt (by omega)
  refine ⟨{ h.obtain fresh (bytes * 255) with memory := memory }, ?_, rfl, ?_,
    OrderedMap.lookup_insert_self _ _ _, List.range 255, Listed.all hlink, fun i hi => ?_,
    fun i hi hnot => absurd (List.mem_range.mpr hi) hnot⟩
  · unfold init
    have hblocks : blocksPerChunk.toNat = 255 := rfl
    rw [hblocks, hwrites]
    rfl
  · intro x hx
    refine hothers x fun i hi heq => ?_
    have hend : fresh + i * bytes + bytes ≤ fresh + bytes * 255 := block_le ⟨fresh, 0, 0⟩ bytes hi
    omega
  · have hend : fresh + i * bytes + bytes ≤ fresh + bytes * 255 :=
      block_le ⟨fresh, 0, 0⟩ bytes (List.mem_range.mp hi)
    exact hvacant (fresh + i * bytes) (Nat.le_add_right _ _) (by omega)

end Chunk

/-! ### All chunks of one size -/

theorem sum_map_set {A : Type} (f : A → Nat) {old : A} (new : A) :
    ∀ (list : List A) (index : Nat), list[index]? = some old →
      ((list.set index new).map f).sum + f old = (list.map f).sum + f new
  | [], _, hold => absurd hold nofun
  | head :: rest, 0, hold => by
      cases hold
      simp only [List.set_cons_zero, List.map_cons, List.sum_cons]
      omega
  | head :: rest, index + 1, hold => by
      have ih := sum_map_set f new rest index hold
      simp only [List.set_cons_succ, List.map_cons, List.sum_cons]
      omega

/-- The last element takes the place of another. -/
theorem perm_dropLast_set {A : Type} {list : List A} {index : Nat} {old back : A}
    (hold : list[index]? = some old) (hback : list.getLast? = some back) :
    list.Perm (old :: (list.set index back).dropLast) := by
  obtain ⟨init, rfl⟩ := List.getLast?_eq_some_iff.mp hback
  have hrotate : (init ++ [back]).Perm (back :: init) := List.perm_append_singleton back init
  rcases lt_or_ge index init.length with hlt | hge
  · rw [List.getElem?_append_left hlt, List.getElem?_eq_getElem hlt, Option.some.injEq] at hold
    rw [List.set_append_left _ _ hlt, List.dropLast_concat]
    calc
      (init ++ [back]).Perm (back :: init) := hrotate
      _ |>.Perm (back :: old :: init.eraseIdx index) := by
          rw [← hold]
          exact (List.getElem_cons_eraseIdx_perm hlt).symm.cons back
      _ |>.Perm (old :: back :: init.eraseIdx index) := List.Perm.swap _ _ _
      _ |>.Perm (old :: init.set index back) := (List.set_perm_cons_eraseIdx hlt back).symm.cons old
  · have hindex : index = init.length := by
      have hlt := (List.getElem?_eq_some_iff.mp hold).1
      rw [List.length_append, List.length_singleton] at hlt
      omega
    subst hindex
    rw [List.getElem?_append_right le_rfl, Nat.sub_self] at hold
    cases hold
    rw [List.set_append_right _ _ le_rfl, Nat.sub_self, List.set_cons_zero, List.dropLast_concat]
    exact hrotate

namespace FixedAllocator

def used (a : FixedAllocator) : Nat := (a.chunks.map Chunk.used).sum

/-- The addresses of the chunks. -/
def data (a : FixedAllocator) : List Nat := a.chunks.map Chunk.data

/-- No chunk has all its blocks. -/
def InUse (a : FixedAllocator) : Prop := ∀ c ∈ a.chunks, c.blocksAvailable ≠ blocksPerChunk

structure Serves (a : FixedAllocator) (h : Heap) (objects : OrderedMap Nat Nat) (bytes : Nat) :
    Prop where
  blockSize : a.blockSize = bytes
  numBlocks : a.numBlocks = blocksPerChunk
  allocChunk : a.allocChunk < a.chunks.length
  deallocChunk : a.deallocChunk < a.chunks.length
  nodup : a.data.Nodup
  chunks : ∀ c ∈ a.chunks, c.Serves h objects bytes

theorem serves_new : (new bytes).Serves h objects bytes where
  blockSize := rfl
  numBlocks := rfl
  allocChunk := Int.negSucc_lt_zero 0
  deallocChunk := Int.negSucc_lt_zero 0
  nodup := List.nodup_nil
  chunks := nofun

theorem Serves.frame (hserves : a.Serves h objects bytes) {start size : Nat}
    (hkeeps : HeapKeeps h h' objects objects' start size) (hbytes : 0 < bytes)
    (hapart : ∀ d ∈ a.data, d ≠ start ∧ (d + bytes * 255 ≤ start ∨ start + size ≤ d)) :
    a.Serves h' objects' bytes :=
  { hserves with
    chunks := by
      intro c hc
      obtain ⟨hne, hapart⟩ := hapart c.data (List.mem_map_of_mem hc)
      exact (hserves.chunks c hc).frame hkeeps hbytes hne hapart }

theorem chunkAt_natCast (index : Nat) : a.chunkAt index = a.chunks[index]? := by
  rw [chunkAt, if_neg (Int.not_lt.mpr (Int.natCast_nonneg index)), Int.toNat_natCast]

/-- Two chunks at one address are one. -/
theorem Serves.index_unique (hserves : a.Serves h objects bytes) {c' : Chunk}
    (hi : a.chunks[i]? = some c) (hj : a.chunks[j]? = some c') (heq : c.data = c'.data) : i = j := by
  have hlt : i < a.data.length := by
    rw [data, List.length_map]
    exact (List.getElem?_eq_some_iff.mp hi).1
  refine (List.getElem?_inj hlt hserves.nodup).mp ?_
  rw [data, List.getElem?_map, List.getElem?_map, hi, hj, Option.map_some, Option.map_some, heq]

theorem mem_setChunk {c' other : Chunk} (hother : other ∈ (a.setChunk i c').chunks) :
    other = c' ∨ ∃ j ≠ i, a.chunks[j]? = some other := by
  obtain ⟨j, hj⟩ := List.mem_iff_getElem?.mp hother
  rw [setChunk, Int.toNat_natCast, List.getElem?_set] at hj
  split at hj
  · split at hj
    · exact Or.inl (Option.some.inj hj).symm
    · cases hj
  · next hne => exact Or.inr ⟨j, Ne.symm hne, hj⟩

/-- The blocks of one chunk change. -/
theorem Serves.setChunk {c' : Chunk} (hserves : a.Serves h objects bytes)
    (hbytes : 0 < bytes) (hpacked : Packed id 0 space h.arrays) (hindex : a.chunks[i]? = some c)
    (hdata : c'.data = c.data) (hserves' : c'.Serves h' objects' bytes)
    (hkeeps : HeapKeeps h h' objects objects' c.data (bytes * 255)) :
    (a.setChunk i c').Serves h' objects' bytes ∧ (a.setChunk i c').data = a.data := by
  have hsame : (a.setChunk i c').data = a.data := by
    rw [data, data, FixedAllocator.setChunk, List.map_set, Int.toNat_natCast, hdata]
    refine List.ext_getElem? fun j => ?_
    rw [List.getElem?_set]
    split
    · next hij =>
        subst hij
        rw [List.getElem?_map, hindex]
        split
        · rfl
        · next hge =>
            rw [List.length_map] at hge
            exact absurd (List.getElem?_eq_some_iff.mp hindex).1 hge
    · rfl
  have hlength : (a.setChunk i c').chunks.length = a.chunks.length := List.length_set
  refine ⟨⟨hserves.blockSize, hserves.numBlocks, ?_, ?_, hsame ▸ hserves.nodup, ?_⟩, hsame⟩
  · rw [hlength]
    exact hserves.allocChunk
  · rw [hlength]
    exact hserves.deallocChunk
  · intro other hother
    rcases mem_setChunk hother with rfl | ⟨j, hij, hj⟩
    · exact hserves'
    · have hmem := hserves.chunks other (List.mem_of_getElem? hj)
      have hc := hserves.chunks c (List.mem_of_getElem? hindex)
      have hne : other.data ≠ c.data := fun heq => hij (hserves.index_unique hj hindex heq)
      exact hmem.frame hkeeps hbytes hne (apart_of_arrays hpacked hmem.array hc.array hne)

/-- A chunk with a block left is found, or there is a new one. -/
theorem room_spec (hserves : a.Serves h objects bytes) (hbytes : 0 < bytes)
    (hvacant : ∀ x, fresh ≤ x → x < fresh + bytes * 255 → objects[x]? = none)
    (hfresh : ∀ x, fresh ≤ x → x < fresh + bytes * 255 → ¬Covers id h.arrays x) :
    ∃ (a' : FixedAllocator) (h' : Heap) (i : Nat) (c : Chunk),
      a.room h fresh = some (a', h') ∧
      a'.allocChunk = i ∧ a'.chunks[i]? = some c ∧ c.blocksAvailable ≠ 0 ∧
      a'.Serves h' objects bytes ∧
      ((h' = h ∧ a'.chunks = a.chunks) ∨
        (c = ⟨fresh, 0, blocksPerChunk⟩ ∧ a'.chunks = a.chunks ++ [c] ∧
          h'.arrays = h.arrays.insert fresh (bytes * 255) ∧
          ∀ x, x < fresh ∨ fresh + bytes * 255 ≤ x → h'.memory x = h.memory x)) := by
  have hfind : ∃ (a' : FixedAllocator) (h' : Heap) (i : Nat) (c : Chunk),
      a.findRoom h fresh = some (a', h') ∧ a'.allocChunk = i ∧ a'.chunks[i]? = some c ∧
      c.blocksAvailable ≠ 0 ∧ a'.Serves h' objects bytes ∧
      ((h' = h ∧ a'.chunks = a.chunks) ∨
        (c = ⟨fresh, 0, blocksPerChunk⟩ ∧ a'.chunks = a.chunks ++ [c] ∧
          h'.arrays = h.arrays.insert fresh (bytes * 255) ∧
          ∀ x, x < fresh ∨ fresh + bytes * 255 ≤ x → h'.memory x = h.memory x)) := by
    unfold findRoom
    cases hsearch : a.chunks.findIdx? (0 < ·.blocksAvailable) with
    | some i =>
        obtain ⟨hlt, hroom, _⟩ := List.findIdx?_eq_some_iff_getElem.mp hsearch
        refine ⟨{ a with allocChunk := i }, h, i, a.chunks[i], rfl, rfl,
          List.getElem?_eq_getElem hlt, ?_, { hserves with allocChunk := Int.ofNat_lt.mpr hlt },
          Or.inl ⟨rfl, rfl⟩⟩
        exact (UInt8.pos_iff_ne_zero.mp (of_decide_eq_true hroom))
    | none =>
        obtain ⟨h', hinit, harrays, hmemory, hnew⟩ :=
          Chunk.init_spec h hbytes hvacant
        have hkeeps : HeapKeeps h h' objects objects fresh (bytes * 255) := by
          refine ⟨fun d hd => ?_, hmemory, fun _ _ => rfl⟩
          rw [harrays, OrderedMap.lookup_insert_ne _ _ hd.symm]
        have hpos : 0 < bytes * 255 := by omega
        have hne : ∀ c ∈ a.chunks, c.data ≠ fresh := by
          intro c hc heq
          have harray := (hserves.chunks c hc).array
          exact hfresh fresh le_rfl (by omega) ⟨c.data, bytes * 255, harray, heq.le, by
            rw [id]
            omega⟩
        refine ⟨{ a with
            chunks := a.chunks ++ [⟨fresh, 0, blocksPerChunk⟩]
            allocChunk := a.chunks.length
            deallocChunk := a.chunks.length }, h', a.chunks.length, ⟨fresh, 0, blocksPerChunk⟩,
          ?_, rfl, List.getElem?_concat_length, nofun,
          ⟨hserves.blockSize, hserves.numBlocks, ?_, ?_, ?_, ?_⟩,
          Or.inr ⟨rfl, rfl, harrays, hmemory⟩⟩
        · rw [hserves.blockSize, hserves.numBlocks, hinit]
          rfl
        · simp
        · simp
        · rw [data, List.map_append, List.nodup_append]
          refine ⟨hserves.nodup, List.nodup_singleton _, ?_⟩
          intro d hd e he
          obtain ⟨c, hc, rfl⟩ := List.mem_map.mp hd
          obtain rfl := List.mem_singleton.mp he
          exact hne c hc
        · intro c hc
          rcases List.mem_append.mp hc with hc | hc
          · have hold := hserves.chunks c hc
            exact hold.frame hkeeps hbytes (hne c hc)
              (apart_of_uncovered hold.array hpos hpos hfresh)
          · obtain rfl := List.mem_singleton.mp hc
            exact hnew
  unfold room lastHasRoom
  split
  · rw [Option.bind_eq_bind, Option.bind_some, if_neg Bool.false_ne_true]
    exact hfind
  · next hnonneg =>
      obtain ⟨i, hi⟩ := Int.eq_ofNat_of_zero_le (Int.not_lt.mp hnonneg)
      have hlt : i < a.chunks.length := by
        have := hserves.allocChunk
        omega
      rw [hi, chunkAt_natCast, List.getElem?_eq_getElem hlt, Option.map_some, Option.bind_eq_bind,
        Option.bind_some]
      split
      · next hroom =>
          exact ⟨a, h, i, a.chunks[i], rfl, hi, List.getElem?_eq_getElem hlt,
            of_decide_eq_true hroom, hserves, Or.inl ⟨rfl, rfl⟩⟩
      · exact hfind

theorem used_setChunk {c' : Chunk} (hindex : a.chunks[i]? = some c) :
    (a.setChunk i c').used + c.used = a.used + c'.used := by
  rw [used, used, setChunk, Int.toNat_natCast]
  exact sum_map_set Chunk.used c' a.chunks i hindex

/-- **Allocation.** The block that is given out held no object, and only its chunk changes. -/
theorem allocate_spec (hserves : a.Serves h objects bytes) (hinUse : a.InUse)
    (hbytes : 2 ≤ bytes) (hpacked : Packed id 0 space h.arrays)
    (hvacant : ∀ x, fresh ≤ x → x < fresh + bytes * 255 → objects[x]? = none)
    (hfresh : ∀ x, fresh ≤ x → x < fresh + bytes * 255 → ¬Covers id h.arrays x)
    (hspace : fresh + bytes * 255 ≤ space) :
    ∃ (a' : FixedAllocator) (h' : Heap) (c : Chunk) (i : Nat),
      a.allocate h fresh = some (some (c.block bytes i), a', h') ∧
      c ∈ a'.chunks ∧ i < 255 ∧ objects[c.block bytes i]? = none ∧
      a'.Serves h' (objects.insert (c.block bytes i) bytes) bytes ∧ a'.InUse ∧
      a'.used = a.used + 1 ∧
      HeapKeeps h h' objects (objects.insert (c.block bytes i) bytes) c.data (bytes * 255) ∧
      (∀ x, Covers id h.arrays x → h'.memory x = h.memory x) ∧
      ((h'.arrays = h.arrays ∧ a'.data = a.data) ∨
        (c.data = fresh ∧ h'.arrays = h.arrays.insert fresh (bytes * 255) ∧
          a'.data = a.data ++ [fresh])) := by
  have hpos : 0 < bytes := by omega
  obtain ⟨a₁, h₁, i, c, hroom, halloc, hindex, havailable, hserves₁, hcase⟩ :=
    room_spec hserves hpos hvacant hfresh
  have hmem := List.mem_of_getElem? hindex
  have hc := hserves₁.chunks c hmem
  obtain ⟨slot, hslot, c', hallocate, hdata, hcount, hnone, hserves'⟩ :=
    Chunk.allocate_spec hc hbytes havailable
  have hblock : c'.block bytes slot = c.block bytes slot := by rw [Chunk.block, Chunk.block, hdata]
  have hpacked₁ : Packed id 0 space h₁.arrays := by
    rcases hcase with ⟨rfl, _⟩ | ⟨_, _, harrays, _⟩
    · exact hpacked
    · rw [harrays]
      exact hpacked.insert (by rw [id]; omega) hfresh (Nat.zero_le _) hspace
  have hkeeps₁ : HeapKeeps h₁ h₁ objects (objects.insert (c.block bytes slot) bytes) c.data
      (bytes * 255) := by
    refine ⟨fun _ _ => rfl, fun _ _ => rfl, fun x hx => OrderedMap.lookup_insert_ne _ _ ?_⟩
    have hle := Chunk.le_block c bytes slot
    have hend := Chunk.block_le c bytes hslot
    omega
  obtain ⟨hset, hsame⟩ := hserves₁.setChunk hpos hpacked₁ hindex hdata hserves' hkeeps₁
  have hlt : i < a₁.chunks.length := (List.getElem?_eq_some_iff.mp hindex).1
  have hnew : c' ∈ (a₁.setChunk i c').chunks := by
    rw [setChunk, Int.toNat_natCast]
    exact List.mem_set hlt c'
  have havailable' : c'.blocksAvailable ≠ blocksPerChunk := by
    intro hfull
    have hle := c.blocksAvailable.toNat_lt
    rw [hfull] at hcount
    have hblocks : blocksPerChunk.toNat = 255 := rfl
    omega
  have hused : (a₁.setChunk i c').used + c.used = a₁.used + c'.used := used_setChunk hindex
  have hstep : c'.used = c.used + 1 := by
    have hle := c.blocksAvailable.toNat_lt
    unfold Chunk.used
    omega
  have hcall : a.allocate h fresh = some (some (c'.block bytes slot), a₁.setChunk i c', h₁) := by
    unfold allocate
    simp only [hroom, Option.bind_eq_bind, Option.bind_some, halloc, chunkAt_natCast, hindex,
      if_neg havailable, hserves₁.blockSize, hallocate, hblock, Option.pure_def]
  have hinUse' : (a₁.setChunk i c').InUse := by
    intro other hother
    rcases mem_setChunk hother with rfl | ⟨j, hne, hj⟩
    · exact havailable'
    · rcases hcase with ⟨_, hchunks⟩ | ⟨_, hchunks, _, _⟩
      · exact hinUse other (hchunks ▸ List.mem_of_getElem? hj)
      · have hother₁ := List.mem_of_getElem? hj
        rw [hchunks] at hother₁
        rcases List.mem_append.mp hother₁ with hold | hlast
        · exact hinUse other hold
        · have heq : other = c := List.mem_singleton.mp hlast
          exact absurd (hserves₁.index_unique hj hindex (congrArg Chunk.data heq)) hne
  rcases hcase with ⟨rfl, hchunks⟩ | ⟨hc₁, hchunks, harrays, hmemory⟩
  · have hdata₁ : a₁.data = a.data := congrArg (List.map Chunk.data) hchunks
    have hused₁ : a₁.used = a.used := congrArg (fun chunks => (chunks.map Chunk.used).sum) hchunks
    refine ⟨a₁.setChunk i c', h₁, c', slot, hcall, hnew, hslot, ?_, ?_, hinUse', ?_, ?_,
      fun _ _ => rfl, Or.inl ⟨rfl, hsame.trans hdata₁⟩⟩
    · rwa [hblock]
    · rwa [hblock]
    · omega
    · rwa [hblock, hdata]
  · have hfresh₁ : c.data = fresh := congrArg Chunk.data hc₁
    have hdata₁ : a₁.data = a.data ++ [fresh] := by
      rw [data, hchunks, List.map_append, List.map_singleton, hfresh₁]
      rfl
    have hused₁ : a₁.used = a.used := by
      rw [used, hchunks, List.map_append, List.map_singleton, List.sum_append, hc₁]
      rfl
    refine ⟨a₁.setChunk i c', h₁, c', slot, hcall, hnew, hslot, ?_, ?_, hinUse', ?_, ?_, ?_,
      Or.inr ⟨hdata.trans hfresh₁, harrays, hsame.trans hdata₁⟩⟩
    · rwa [hblock]
    · rwa [hblock]
    · omega
    · rw [hfresh₁] at hkeeps₁
      rw [hblock, hdata, hfresh₁]
      refine ⟨fun d hd => ?_, hmemory, hkeeps₁.objects⟩
      rw [harrays, OrderedMap.lookup_insert_ne _ _ hd.symm]
    · intro x hcovers
      refine hmemory x ?_
      by_contra hover
      push Not at hover
      exact hfresh x hover.1 hover.2 hcovers

theorem chunkOwnsPointer_iff (hserves : a.Serves h objects bytes) (hbytes : 0 < bytes)
    {p : Nat} : a.chunkOwnsPointer c p = true ↔ c.data ≤ p ∧ p < c.data + bytes * 255 := by
  have hblocks : blocksPerChunk.toNat = 255 := rfl
  rw [chunkOwnsPointer, hserves.blockSize, hserves.numBlocks, hblocks, decide_eq_true_iff,
    Nat.div_lt_iff_lt_mul hbytes, Nat.mul_comm 255 bytes]
  constructor
  · rintro ⟨hle, hlt⟩
    exact ⟨hle, by omega⟩
  · rintro ⟨hle, hlt⟩
    exact ⟨hle, by omega⟩

/-- Only one chunk owns a pointer. -/
theorem owns_unique (hserves : a.Serves h objects bytes) (hbytes : 0 < bytes)
    (hpacked : Packed id 0 space h.arrays) {p : Nat} {c' : Chunk} (hi : a.chunks[i]? = some c)
    (hj : a.chunks[j]? = some c') (howns : a.chunkOwnsPointer c p = true)
    (howns' : a.chunkOwnsPointer c' p = true) : i = j := by
  have hc := (hserves.chunks c (List.mem_of_getElem? hi)).array
  have hc' := (hserves.chunks c' (List.mem_of_getElem? hj)).array
  exact hserves.index_unique hi hj (hpacked.start_unique hc hc'
    ((chunkOwnsPointer_iff hserves hbytes).mp howns) ((chunkOwnsPointer_iff hserves hbytes).mp howns'))

/-- The chunk of a block is found. -/
theorem owner_spec (hserves : a.Serves h objects bytes) (hbytes : 0 < bytes)
    (hpacked : Packed id 0 space h.arrays) (hindex : a.chunks[i]? = some c) {slot : Nat}
    (hslot : slot < 255) : a.owner (c.block bytes slot) = some (i : Int) := by
  have howns : a.chunkOwnsPointer c (c.block bytes slot) = true := by
    have hend := Chunk.block_le c bytes hslot
    exact (chunkOwnsPointer_iff hserves hbytes).mpr ⟨Chunk.le_block c bytes slot, by omega⟩
  have hfind : a.findOwner (c.block bytes slot) = i := by
    unfold findOwner
    have hsearch : a.chunks.findIdx? (a.chunkOwnsPointer · (c.block bytes slot)) = some i := by
      have hlt := (List.getElem?_eq_some_iff.mp hindex).1
      refine List.findIdx?_eq_some_iff_getElem.mpr ⟨hlt, ?_, fun j hj hfound => ?_⟩
      · rw [(List.getElem_eq_iff hlt).mpr hindex]
        exact howns
      · have hunique := owns_unique hserves hbytes hpacked
          (List.getElem?_eq_getElem (hj.trans hlt)) hindex hfound howns
        omega
    rw [hsearch]
  unfold owner lastOwns
  split
  · rw [Option.bind_eq_bind, Option.bind_some, if_neg Bool.false_ne_true, hfind]
  · next hnonneg =>
      obtain ⟨j, hj⟩ := Int.eq_ofNat_of_zero_le (Int.not_lt.mp hnonneg)
      have hlt : j < a.chunks.length := by
        have := hserves.deallocChunk
        omega
      rw [hj, chunkAt_natCast, List.getElem?_eq_getElem hlt, Option.map_some, Option.bind_eq_bind,
        Option.bind_some]
      split
      · next hlast =>
          rw [owns_unique hserves hbytes hpacked (List.getElem?_eq_getElem hlt) hindex hlast howns]
      · rw [hfind]

/-- A chunk that holds no object is deleted. -/
theorem dropChunk_spec (hserves : a.Serves h objects bytes)
    (hindex : a.chunks[i]? = some c) :
    ∃ (a' : FixedAllocator) (h' : Heap), a.dropChunk h i c = some (a', h') ∧
      a'.Serves h' objects bytes ∧ a.chunks.Perm (c :: a'.chunks) ∧
      h'.memory = h.memory ∧ h'.arrays = h.arrays.erase c.data := by
  have hlt := (List.getElem?_eq_some_iff.mp hindex).1
  have hc := hserves.chunks c (List.mem_of_getElem? hindex)
  have hrelease : h.release c.data = some { h with arrays := h.arrays.erase c.data } := by
    refine if_pos ?_
    rw [Std.ExtTreeMap.mem_iff_isSome_getElem?, hc.array]
    rfl
  cases hback : a.chunks.getLast? with
  | none =>
      rw [List.getLast?_eq_none_iff] at hback
      rw [hback] at hlt
      exact absurd hlt (Nat.not_lt_zero i)
  | some back =>
      have hperm := perm_dropLast_set hindex hback
      have hlength := hperm.length_eq
      rw [List.length_cons] at hlength
      have halloc := hserves.allocChunk
      refine ⟨{ a with
          chunks := (a.chunks.set i back).dropLast
          allocChunk :=
            let alloc := if a.allocChunk = i then -1 else a.allocChunk
            if alloc = (a.chunks.length : Int) - 1 then (i : Int) else alloc
          deallocChunk := -1 }, { h with arrays := h.arrays.erase c.data }, ?_,
        ⟨hserves.blockSize, hserves.numBlocks, ?_, ?_, ?_, ?_⟩, hperm, rfl, rfl⟩
      · unfold dropChunk
        rw [hrelease, hback]
        rfl
      · dsimp only
        split_ifs <;> omega
      · dsimp only
        omega
      · exact (List.nodup_cons.mp ((hperm.map Chunk.data).nodup_iff.mp hserves.nodup)).2
      · intro other hother
        have hmem := hserves.chunks other (hperm.mem_iff.mpr (List.mem_cons_of_mem _ hother))
        have hne : c.data ≠ other.data := by
          have hnodup := (hperm.map Chunk.data).nodup_iff.mp hserves.nodup
          rw [List.map_cons, List.nodup_cons] at hnodup
          exact fun heq => hnodup.1 (heq ▸ List.mem_map_of_mem hother)
        exact ⟨(OrderedMap.lookup_erase_ne _ hne).trans hmem.array, hmem.lists⟩

/-- **Deallocation.** Only the first byte of the block changes, and a chunk without objects goes. -/
theorem deallocate_spec (hserves : a.Serves h objects bytes) (hinUse : a.InUse)
    (hbytes : 0 < bytes) (hpacked : Packed id 0 space h.arrays) (hmem : c ∈ a.chunks) {slot : Nat}
    (hslot : slot < 255) (hobject : objects[c.block bytes slot]? = some bytes) :
    ∃ (a' : FixedAllocator) (h' : Heap),
      a.deallocate h (c.block bytes slot) = some (a', h') ∧
      a'.Serves h' (objects.erase (c.block bytes slot)) bytes ∧ a'.InUse ∧
      a'.used + 1 = a.used ∧ (∀ x ≠ c.block bytes slot, h'.memory x = h.memory x) ∧
      ((h'.arrays = h.arrays ∧ a'.data = a.data) ∨
        (h'.arrays = h.arrays.erase c.data ∧ a.data.Perm (c.data :: a'.data) ∧
          ∀ j < 255, (objects.erase (c.block bytes slot))[c.block bytes j]? = none)) := by
  obtain ⟨i, hindex⟩ := List.mem_iff_getElem?.mp hmem
  have hc := hserves.chunks c hmem
  obtain ⟨c', h₁, hdealloc, hdata, hcount, harrays, hmemory, hserves'⟩ :=
    Chunk.deallocate_spec hc hbytes hslot hobject
  have hkeeps : HeapKeeps h h₁ objects (objects.erase (c.block bytes slot)) c.data
      (bytes * 255) := by
    have hle := Chunk.le_block c bytes slot
    have hend := Chunk.block_le c bytes hslot
    refine ⟨fun d _ => by rw [harrays], fun x hx => hmemory x (by omega), fun x hx =>
      OrderedMap.lookup_erase_ne _ (by omega)⟩
  have hserves₀ : ({ a with deallocChunk := (i : Int) } : FixedAllocator).Serves h objects bytes :=
    { hserves with deallocChunk := Int.ofNat_lt.mpr (List.getElem?_eq_some_iff.mp hindex).1 }
  obtain ⟨hset, hsame⟩ := hserves₀.setChunk hbytes hpacked hindex hdata hserves' hkeeps
  have hused : (({ a with deallocChunk := (i : Int) } : FixedAllocator).setChunk i c').used + c.used =
      a.used + c'.used := used_setChunk hindex
  have hstep : c'.used + 1 = c.used := by
    obtain ⟨free, hlists⟩ := hserves'.lists
    have hle := hlists.listed.available_le
    unfold Chunk.used
    omega
  have hcall : a.deallocate h (c.block bytes slot) =
      if c'.blocksAvailable = blocksPerChunk then
        (FixedAllocator.setChunk { a with deallocChunk := (i : Int) } i c').dropChunk h₁ i c'
      else some (FixedAllocator.setChunk { a with deallocChunk := (i : Int) } i c', h₁) := by
    unfold deallocate
    simp only [owner_spec hserves hbytes hpacked hindex hslot, Option.bind_eq_bind,
      Option.bind_some, chunkAt_natCast, hindex, hserves.blockSize, hdealloc, Option.pure_def]
  rw [hcall]
  split
  · next hfull =>
      have hindex' : (FixedAllocator.setChunk { a with deallocChunk := (i : Int) } i c').chunks[i]? =
          some c' := by
        rw [FixedAllocator.setChunk, Int.toNat_natCast]
        exact List.getElem?_set_self (List.getElem?_eq_some_iff.mp hindex).1
      obtain ⟨a', h', hdrop, hserves'', hperm, hmemory', harrays'⟩ := dropChunk_spec hset hindex'
      have hdataPerm := hperm.map Chunk.data
      have hempty : c'.used = 0 := by
        rw [Chunk.used, hfull]
        rfl
      refine ⟨a', h', hdrop, hserves'', fun other hother => ?_, ?_, fun x hx => ?_,
        Or.inr ⟨by rw [harrays', harrays, hdata], ?_, fun j hj => ?_⟩⟩
      · rcases mem_setChunk (hperm.mem_iff.mpr (List.mem_cons_of_mem _ hother)) with rfl | ⟨j, _, hj⟩
        · have hnodup := hdataPerm.nodup_iff.mp hset.nodup
          rw [List.map_cons, List.nodup_cons] at hnodup
          exact absurd (List.mem_map_of_mem hother) hnodup.1
        · exact hinUse other (List.mem_of_getElem? hj)
      · have hsum := (hperm.map Chunk.used).sum_eq
        rw [List.map_cons, List.sum_cons, hempty, Nat.zero_add] at hsum
        have hused' : a'.used = (FixedAllocator.setChunk { a with deallocChunk := (i : Int) } i c').used :=
          hsum.symm
        change _ + c.used = a.used + _ at hused
        omega
      · rw [hmemory', hmemory x hx]
      · rw [← hdata]
        exact hsame ▸ hdataPerm
      · have hvacant := hserves'.vacant_of_full hfull hj
        rwa [show c'.block bytes j = c.block bytes j from congrArg (· + j * bytes) hdata] at hvacant
  · next hfull =>
      refine ⟨_, _, rfl, hset, fun other hother => ?_, ?_, hmemory, Or.inl ⟨harrays, hsame⟩⟩
      · rcases mem_setChunk hother with rfl | ⟨j, _, hj⟩
        · exact hfull
        · exact hinUse other (List.mem_of_getElem? hj)
      · change _ + c.used = a.used + _ at hused
        omega

end FixedAllocator

end RetroShare.Util
