import RetroShare.Ft.Progress
import RetroShare.Ft.Proof.ChunkSizes

/-!
# Progress against the chunk sizes

`computeProgress` multiplies the number of set bits by the chunk size and puts the residue in the place
of one chunk when the last bit is set. That is the sum of the sizes of the set chunks as long as the map
reaches to the last chunk, and its number of bits to the last set one.
-/

namespace RetroShare.Ft

open RetroShare.Word Finset

namespace CompressedChunkMap

variable (cmap : CompressedChunkMap) {n k : Nat}

/-- The set bits below `n`. -/
def filled (n : Nat) : Finset Nat := (range n).filter fun i => cmap.get? i = some true

/-- How many bits the loop of `filledChunks` looks at, at most. -/
def counted : Nat := wrap 32 (wrap 32 cmap.map.length * 32)

/-- **What progress needs.** The map reaches to a last chunk that is not a whole one, and no chunk is set
beyond the bits that are counted. -/
def ShowsAll (totalSize : Nat) : Prop :=
  (totalSize % chunkmapFixedChunkSize ≠ 0 → numberOfChunks totalSize ≤ 32 * cmap.map.length) ∧
    ∀ i < numberOfChunks totalSize, cmap.get? i = some true → i < cmap.counted

variable {cmap}

theorem counted_le : cmap.counted ≤ 32 * cmap.map.length := by
  have hwords : wrap 32 cmap.map.length ≤ cmap.map.length := Nat.mod_le _ _
  have hbits : cmap.counted ≤ wrap 32 cmap.map.length * 32 := Nat.mod_le _ _
  omega

theorem get?_isSome (hn : n < 32 * cmap.map.length) : (cmap.get? n).isSome := by
  have hword : n / 32 < cmap.map.length := by omega
  rw [get?, Option.isSome_map, List.getElem?_eq_getElem hword]
  rfl

theorem lt_of_get? {b : Bool} (hbit : cmap.get? n = some b) : n < 32 * cmap.map.length := by
  obtain ⟨word, hword, -⟩ := Option.map_eq_some_iff.mp hbit
  have := (List.getElem?_eq_some_iff.mp hword).1
  omega

theorem card_filled_le : (cmap.filled n).card ≤ n :=
  (card_filter_le _ _).trans_eq (card_range n)

theorem filled_succ :
    (cmap.filled (n + 1)).card =
      (cmap.filled n).card + if cmap.get? n = some true then 1 else 0 := by
  rw [filled, filled, range_add_one, filter_insert]
  split
  · rw [card_insert_of_notMem (by simp)]
  · rfl

/-- The loop over the bits that are there. -/
theorem foldlM_filled (hn : n ≤ 32 * cmap.map.length) (hsmall : n < 2 ^ 32) :
    (List.range n).foldlM
        (fun res i => do return add 32 res (← cmap.get? i).toNat) 0 =
      some (cmap.filled n).card := by
  induction n with
  | zero => rfl
  | succ n ih =>
      obtain ⟨b, hb⟩ := Option.isSome_iff_exists.mp (get?_isSome
        (show n < 32 * cmap.map.length by omega))
      have hcard := @card_filled_le cmap n
      rw [List.range_succ, List.foldlM_append, ih (by omega) (by omega), filled_succ]
      simp only [Option.bind_eq_bind, Option.bind_some, List.foldlM_cons, List.foldlM_nil, hb]
      cases b with
      | false =>
          rw [if_neg (by simp)]
          exact congrArg some (add_of_lt (show (cmap.filled n).card + 0 < 2 ^ 32 by omega))
      | true =>
          rw [if_pos rfl]
          exact congrArg some (add_of_lt (show (cmap.filled n).card + 1 < 2 ^ 32 by omega))

theorem filledChunks_eq (hn : n < 2 ^ 32) :
    cmap.filledChunks n = some (cmap.filled (min n cmap.counted)).card :=
  foldlM_filled ((Nat.min_le_right _ _).trans counted_le)
    (Nat.lt_of_le_of_lt (Nat.min_le_left _ _) hn)

theorem filled_min_subset : cmap.filled (min n k) ⊆ cmap.filled n :=
  filter_subset_filter _ (range_subset_range.mpr (Nat.min_le_left _ _))

/-- Fewer bits have the same count exactly when no bit is lost. -/
theorem card_filled_min :
    (cmap.filled (min n k)).card = (cmap.filled n).card ↔
      ∀ i < n, cmap.get? i = some true → i < k := by
  constructor
  · intro hcard i hi hbit
    have heq := eq_of_subset_of_card_le filled_min_subset hcard.ge
    have hmem : i ∈ cmap.filled (min n k) := heq ▸ mem_filter.mpr ⟨mem_range.mpr hi, hbit⟩
    exact Nat.lt_of_lt_of_le (mem_range.mp (mem_filter.mp hmem).1) (Nat.min_le_right _ _)
  · intro hall
    refine congrArg card (Subset.antisymm filled_min_subset ?_)
    intro i hi
    obtain ⟨hi, hbit⟩ := mem_filter.mp hi
    have hi := mem_range.mp hi
    exact mem_filter.mpr ⟨mem_range.mpr (lt_min hi (hall i hi hbit)), hbit⟩

/-! ### The two formulas -/

/-- Rounding up in 64 bits gives the number of chunks. -/
theorem nbchks_eq {size : Nat} (hcount : numberOfChunks size < 2 ^ 32) :
    wrap 32 (sub 64 (add 64 size chunkmapFixedChunkSize) 1 / chunkmapFixedChunkSize) =
      numberOfChunks size := by
  have hsize := le_mul_numberOfChunks size
  rw [chunkmapFixedChunkSize_eq] at hsize ⊢
  rw [add_of_lt (by omega), sub_of_le (by omega) (by omega)]
  have hround : (size + 1048576 - 1) / 1048576 = numberOfChunks size := by
    rw [numberOfChunks, chunkmapFixedChunkSize_eq]
    split <;> omega
  rw [hround, wrap_of_lt hcount]

/-- The formula for `k` counted bits. -/
def progressOf (size k : Nat) (last : Bool) : Nat :=
  if last then
    add 64 (wrap 64 (sub 32 k 1 * chunkmapFixedChunkSize)) (size % chunkmapFixedChunkSize)
  else wrap 64 (k * chunkmapFixedChunkSize)

theorem computeProgress_eq {size : Nat} (hpos : 0 < size)
    (hcount : numberOfChunks size < 2 ^ 32) :
    cmap.computeProgress size chunkmapFixedChunkSize =
      (if size % chunkmapFixedChunkSize ≠ 0 then cmap.get? (numberOfChunks size - 1)
        else some false).map
      (progressOf size (cmap.filled (min (numberOfChunks size) cmap.counted)).card) := by
  have hresidue : wrap 32 (size % chunkmapFixedChunkSize) = size % chunkmapFixedChunkSize := by
    rw [chunkmapFixedChunkSize_eq]
    exact wrap_of_lt (by omega)
  have hlast : sub 32 (numberOfChunks size) 1 = numberOfChunks size - 1 :=
    sub_of_le (numberOfChunks_pos hpos) hcount
  rw [computeProgress, if_neg (Nat.pos_iff_ne_zero.mp hpos)]
  simp only [nbchks_eq hcount, hresidue, hlast, filledChunks_eq hcount]
  by_cases hwhole : size % chunkmapFixedChunkSize = 0
  · rw [if_neg (not_not.mpr hwhole), if_neg (not_not.mpr hwhole), Option.map_some, progressOf]
    simp only [Option.bind_eq_bind, Option.bind_some, Bool.false_eq_true, if_false, Option.pure_def]
  · rw [if_pos hwhole, if_pos hwhole]
    cases cmap.get? (numberOfChunks size - 1) with
    | none => simp only [Option.bind_eq_bind, Option.bind_none, Option.map_none]
    | some last =>
        rw [Option.map_some, progressOf]
        simp only [Option.bind_eq_bind, Option.bind_some, Option.pure_def]
        exact (apply_ite some (last = true) _ _).symm

end CompressedChunkMap

open CompressedChunkMap

variable {PeerId : Type} [LinearOrder PeerId] {m : ChunkMap PeerId} {cmap : CompressedChunkMap}

theorem sizeOfChunk_whole (hsized : m.WellSized) {i : Nat} (hi : i < numberOfChunks m.fileSize)
    (hwhole : i + 1 < numberOfChunks m.fileSize ∨ m.fileSize % chunkmapFixedChunkSize = 0) :
    m.sizeOfChunk i = chunkmapFixedChunkSize := by
  rw [hsized.sizeOfChunk_eq (hsized.length_map ▸ hi)]
  apply Nat.min_eq_left
  rw [numberOfChunks] at hi hwhole
  rw [chunkmapFixedChunkSize_eq] at hi hwhole ⊢
  split at hi <;> rename_i hresidue
  · rw [if_pos hresidue] at hwhole
    omega
  · rw [if_neg hresidue] at hwhole
    omega

theorem sizeOfChunk_last (hsized : m.WellSized) {i : Nat}
    (hi : i + 1 = numberOfChunks m.fileSize)
    (hresidue : m.fileSize % chunkmapFixedChunkSize ≠ 0) :
    m.sizeOfChunk i = m.fileSize % chunkmapFixedChunkSize := by
  rw [hsized.sizeOfChunk_eq (hsized.length_map ▸ by omega)]
  rw [numberOfChunks, if_neg hresidue] at hi
  rw [chunkmapFixedChunkSize_eq] at hi ⊢
  omega

/-- What a source has of the file. -/
def heldBytes (m : ChunkMap PeerId) (cmap : CompressedChunkMap) : Nat :=
  ∑ i ∈ cmap.filled m.map.length, m.sizeOfChunk i

theorem sum_filled_whole {k : Nat} (hwhole : ∀ i < k, m.sizeOfChunk i = chunkmapFixedChunkSize) :
    ∑ i ∈ cmap.filled k, m.sizeOfChunk i = (cmap.filled k).card * chunkmapFixedChunkSize :=
  sum_const_nat fun i hi => hwhole i (mem_range.mp (mem_filter.mp hi).1)

/-- Every set chunk is a whole one, but for the last. -/
theorem heldBytes_eq (hsized : m.WellSized) {last : Bool}
    (hlast : (if m.fileSize % chunkmapFixedChunkSize ≠ 0 then
      cmap.get? (numberOfChunks m.fileSize - 1) else some false) = some last) :
    heldBytes m cmap =
      if last then
        ((cmap.filled m.map.length).card - 1) * chunkmapFixedChunkSize +
          m.fileSize % chunkmapFixedChunkSize
      else (cmap.filled m.map.length).card * chunkmapFixedChunkSize := by
  rw [heldBytes, hsized.length_map]
  by_cases hresidue : m.fileSize % chunkmapFixedChunkSize = 0
  · rw [if_neg (not_not.mpr hresidue)] at hlast
    rw [← Option.some.inj hlast, if_neg Bool.false_ne_true]
    exact sum_filled_whole fun i hi => sizeOfChunk_whole hsized hi (.inr hresidue)
  · rw [if_pos hresidue] at hlast
    have hpos : 0 < m.fileSize := by
      by_contra hzero
      exact hresidue (by rw [Nat.eq_zero_of_not_pos hzero, Nat.zero_mod])
    obtain ⟨k, hk⟩ := Nat.exists_eq_succ_of_ne_zero (numberOfChunks_pos hpos).ne'
    have hwhole : ∀ i < k, m.sizeOfChunk i = chunkmapFixedChunkSize :=
      fun i hi => sizeOfChunk_whole hsized (by omega) (.inl (by omega))
    rw [hk, Nat.succ_sub_one] at hlast
    rw [hk, Nat.succ_eq_add_one, filled_succ, filled, range_add_one, filter_insert, hlast]
    cases last with
    | true =>
        rw [if_pos rfl, if_pos rfl, if_pos rfl, sum_insert (by simp),
          sizeOfChunk_last hsized hk.symm hresidue, Nat.add_sub_cancel]
        exact (Nat.add_comm _ _).trans (congrArg (· + _) (sum_filled_whole hwhole))
    | false =>
        rw [if_neg (by simp), if_neg (by simp), if_neg (by simp), Nat.add_zero]
        exact sum_filled_whole hwhole

/-- With fewer bits than are set the formula gives another number. -/
theorem progressOf_eq_iff {size k f : Nat} {last : Bool} (hcount : numberOfChunks size < 2 ^ 32)
    (hk : k ≤ f) (hf : f ≤ numberOfChunks size) (hlast : last = true → 0 < f) :
    progressOf size k last =
        (if last then (f - 1) * chunkmapFixedChunkSize + size % chunkmapFixedChunkSize
          else f * chunkmapFixedChunkSize) ↔ k = f := by
  rw [progressOf, chunkmapFixedChunkSize_eq]
  cases last with
  | false =>
      rw [if_neg Bool.false_ne_true, if_neg Bool.false_ne_true, wrap_of_lt (by omega)]
      omega
  | true =>
      have hpos := hlast rfl
      rw [if_pos rfl, if_pos rfl]
      rcases Nat.eq_zero_or_pos k with rfl | hkpos
      · have hsub : sub 32 0 1 = 0 + 2 ^ 32 - 1 := sub_of_lt Nat.one_pos (Nat.one_lt_two_pow (by omega))
        rw [hsub, wrap_of_lt (by omega), add_of_lt (by omega)]
        omega
      · rw [sub_of_le hkpos (by omega), wrap_of_lt (by omega), add_of_lt (by omega)]
        omega

/-- The last chunk is counted when it is set. -/
theorem card_filled_pos_of_last {size : Nat} (hpos : 0 < size)
    (hlast : (if size % chunkmapFixedChunkSize ≠ 0 then cmap.get? (numberOfChunks size - 1)
      else some false) = some true) : 0 < (cmap.filled (numberOfChunks size)).card := by
  have hchunks := numberOfChunks_pos hpos
  split at hlast
  · exact card_pos.mpr ⟨_, mem_filter.mpr ⟨mem_range.mpr (Nat.sub_one_lt hchunks.ne'), hlast⟩⟩
  · cases hlast

/-- **Progress.** -/
theorem computeProgress_eq_iff (hsized : m.WellSized)
    (hcount : numberOfChunks m.fileSize < 2 ^ 32) :
    cmap.computeProgress m.fileSize chunkmapFixedChunkSize = some (heldBytes m cmap) ↔
      cmap.ShowsAll m.fileSize := by
  rcases Nat.eq_zero_or_pos m.fileSize with hzero | hpos
  · have hchunks : numberOfChunks 0 = 0 := by
      rw [numberOfChunks, Nat.zero_div, Nat.zero_mod, if_pos rfl]
    have hheld : heldBytes m cmap = 0 := by
      rw [heldBytes, hsized.length_map, hzero, hchunks, filled, range_zero, filter_empty, sum_empty]
    rw [hheld, hzero, computeProgress, if_pos rfl, ShowsAll, hchunks]
    exact iff_of_true rfl ⟨fun _ => Nat.zero_le _, fun i hi => absurd hi (Nat.not_lt_zero i)⟩
  · have hless : (cmap.filled (min (numberOfChunks m.fileSize) cmap.counted)).card ≤
        (cmap.filled (numberOfChunks m.fileSize)).card := card_le_card filled_min_subset
    rw [computeProgress_eq hpos hcount, Option.map_eq_some_iff, ShowsAll, ← card_filled_min]
    constructor
    · rintro ⟨last, hlast, heq⟩
      rw [heldBytes_eq hsized hlast, hsized.length_map] at heq
      refine ⟨fun hresidue => ?_, ?_⟩
      · rw [if_pos hresidue] at hlast
        have := lt_of_get? hlast
        omega
      · exact (progressOf_eq_iff hcount hless card_filled_le
          fun htrue => card_filled_pos_of_last hpos (htrue ▸ hlast)).mp heq
    · rintro ⟨hreach, hcard⟩
      have hseen : ∃ last, (if m.fileSize % chunkmapFixedChunkSize ≠ 0 then
          cmap.get? (numberOfChunks m.fileSize - 1) else some false) = some last := by
        split
        · next hresidue =>
            have hchunks := numberOfChunks_pos hpos
            exact Option.isSome_iff_exists.mp (get?_isSome (by have := hreach hresidue; omega))
        · exact ⟨false, rfl⟩
      obtain ⟨last, hlast⟩ := hseen
      refine ⟨last, hlast, ?_⟩
      rw [heldBytes_eq hsized hlast, hsized.length_map]
      exact (progressOf_eq_iff hcount hless card_filled_le
        fun htrue => card_filled_pos_of_last hpos (htrue ▸ hlast)).mpr hcard

/-- **Chunk sizes and progress.** The sizes partition the file whatever its size is, and the progress of a
source is the sum over what it has exactly when its map shows all that it has. -/
theorem chunkSizes_iff (m : ChunkMap PeerId) (cmap : CompressedChunkMap) (hsized : m.WellSized)
    (hcount : numberOfChunks m.fileSize < 2 ^ 32) :
    ((∀ i < m.map.length, 1 ≤ m.sizeOfChunk i ∧ m.sizeOfChunk i ≤ chunkmapFixedChunkSize) ∧
        ∑ i ∈ range m.map.length, m.sizeOfChunk i = m.fileSize ∧
        cmap.computeProgress m.fileSize chunkmapFixedChunkSize = some (heldBytes m cmap)) ↔
      cmap.ShowsAll m.fileSize := by
  rw [← computeProgress_eq_iff hsized hcount]
  constructor
  · rintro ⟨-, -, hprogress⟩
    exact hprogress
  · intro hprogress
    refine ⟨fun i hi => ?_, hsized.sum_sizeOfChunk, hprogress⟩
    exact ⟨hsized.sizeOfChunk_pos hi, hsized.sizeOfChunk_le hi⟩

theorem numberOfChunks_sample : numberOfChunks 1048577 = 2 := by
  rw [numberOfChunks, chunkmapFixedChunkSize_eq]
  norm_num

/-- A file of two chunks, of which a source has the second one. -/
theorem chunkSizes_sample :
    (CompressedChunkMap.mk [2]).computeProgress 1048577 chunkmapFixedChunkSize =
      some (heldBytes (ChunkMap.new 1048577 false : ChunkMap Nat) ⟨[2]⟩) := by
  have hshows : (CompressedChunkMap.mk [2]).ShowsAll 1048577 := by
    rw [ShowsAll, numberOfChunks_sample]
    refine ⟨fun _ => by decide, fun i hi _ => ?_⟩
    have hcounted : counted ⟨[2]⟩ = 32 := by
      change wrap 32 (wrap 32 1 * 32) = 32
      rw [@wrap_of_lt 32 1 (by norm_num), wrap_of_lt (by norm_num)]
    omega
  exact ((chunkSizes_iff (ChunkMap.new 1048577 false : ChunkMap Nat) ⟨[2]⟩
    (ChunkMap.wellSized_new (by norm_num) false)
    (by change numberOfChunks 1048577 < _; rw [numberOfChunks_sample]; norm_num)).mpr hshows).2.2

/-- An empty map, and a file whose second chunk is not a whole one. -/
theorem chunkSizes_counterexample :
    ¬ ∀ (m : ChunkMap Nat) (cmap : CompressedChunkMap), m.WellSized →
      numberOfChunks m.fileSize < 2 ^ 32 →
        cmap.computeProgress m.fileSize chunkmapFixedChunkSize = some (heldBytes m cmap) := by
  intro hall
  have hsized : (ChunkMap.new 1048577 false : ChunkMap Nat).WellSized :=
    ChunkMap.wellSized_new (by norm_num) false
  have hcount : numberOfChunks 1048577 < 2 ^ 32 := by
    rw [numberOfChunks_sample]
    norm_num
  have hreach := ((computeProgress_eq_iff hsized hcount).mp (hall _ ⟨[]⟩ hsized hcount)).1
  change 1048577 % chunkmapFixedChunkSize ≠ 0 → numberOfChunks 1048577 ≤ 0 at hreach
  rw [chunkmapFixedChunkSize_eq, numberOfChunks_sample] at hreach
  exact absurd (hreach (by norm_num)) (by norm_num)

end RetroShare.Ft
