import Mathlib.Algebra.BigOperators.Fin
import Mathlib.Algebra.BigOperators.Intervals
import RetroShare.Ft.ChunkMap

/-!
# Chunk sizes

All chunks have 1 MB except the last one, whose size the program computes in 32 bits although
neither the file size nor the offset of the chunk fits there. The wrapped result is the right one,
and the sizes add up to the file.
-/

namespace RetroShare.Ft

open RetroShare.Word Finset

theorem chunkmapFixedChunkSize_eq : chunkmapFixedChunkSize = 1048576 := rfl

theorem mul_lt_of_lt_numberOfChunks {n size : Nat} (hn : n < numberOfChunks size) :
    chunkmapFixedChunkSize * n < size := by
  rw [numberOfChunks, chunkmapFixedChunkSize_eq] at hn
  rw [chunkmapFixedChunkSize_eq]
  split at hn <;> omega

theorem le_mul_numberOfChunks (size : Nat) :
    size ≤ chunkmapFixedChunkSize * numberOfChunks size := by
  rw [numberOfChunks, chunkmapFixedChunkSize_eq]
  split <;> omega

theorem numberOfChunks_pos {size : Nat} (hpos : 0 < size) : 0 < numberOfChunks size := by
  have := le_mul_numberOfChunks size
  rw [chunkmapFixedChunkSize_eq] at this
  omega

namespace ChunkMap

variable {PeerId : Type} [LinearOrder PeerId]

/-- The file size is a `uint64_t` and the map has the entries the constructor gave it. -/
structure WellSized (m : ChunkMap PeerId) : Prop where
  fileSize_lt : m.fileSize < 2 ^ 64
  length_map : m.map.length = numberOfChunks m.fileSize

theorem wellSized_new {fileSize : Nat} (hsize : fileSize < 2 ^ 64) (availability : Bool) :
    (new fileSize availability : ChunkMap PeerId).WellSized :=
  { fileSize_lt := hsize
    length_map := by simp [new] }

variable {m : ChunkMap PeerId} {n : Nat}

/-- **Chunk sizes.** The 32-bit computation gives what is left of the file, up to one chunk. -/
theorem WellSized.sizeOfChunk_eq (hsized : m.WellSized) (hn : n < m.map.length) :
    m.sizeOfChunk n = min chunkmapFixedChunkSize (m.fileSize - chunkmapFixedChunkSize * n) := by
  have hsize := hsized.fileSize_lt
  have hlength := hsized.length_map
  rw [hlength] at hn
  have hbelow := mul_lt_of_lt_numberOfChunks hn
  have hlastBelow := mul_lt_of_lt_numberOfChunks
    (show numberOfChunks m.fileSize - 1 < numberOfChunks m.fileSize by omega)
  have habove := le_mul_numberOfChunks m.fileSize
  rw [chunkmapFixedChunkSize_eq] at hbelow hlastBelow habove
  have hlast : sub 64 m.map.length 1 = numberOfChunks m.fileSize - 1 := by
    rw [hlength, sub_of_le (by omega) (by omega)]
  rw [sizeOfChunk, hlast, chunkmapFixedChunkSize_eq]
  split
  · next heq =>
      have hwrap : wrap 32 (n * 1048576) ≤ m.fileSize := by
        have : wrap 32 (n * 1048576) ≤ n * 1048576 := Nat.mod_le _ _
        omega
      rw [sub_of_le hwrap hsize, wrap, wrap]
      omega
  · omega

theorem WellSized.sizeOfChunk_pos (hsized : m.WellSized) (hn : n < m.map.length) :
    0 < m.sizeOfChunk n := by
  rw [hsized.sizeOfChunk_eq hn]
  rw [hsized.length_map] at hn
  have := mul_lt_of_lt_numberOfChunks hn
  rw [chunkmapFixedChunkSize_eq] at this ⊢
  omega

theorem WellSized.sizeOfChunk_le (hsized : m.WellSized) (hn : n < m.map.length) :
    m.sizeOfChunk n ≤ chunkmapFixedChunkSize := by
  rw [hsized.sizeOfChunk_eq hn]
  exact Nat.min_le_left _ _

/-- The offset of the first byte after chunk `n`. -/
def chunkEnd (m : ChunkMap PeerId) (n : Nat) : Nat := chunkmapFixedChunkSize * n + m.sizeOfChunk n

theorem WellSized.chunkEnd_le (hsized : m.WellSized) (hn : n < m.map.length) :
    m.chunkEnd n ≤ m.fileSize := by
  rw [chunkEnd, hsized.sizeOfChunk_eq hn]
  rw [hsized.length_map] at hn
  have := mul_lt_of_lt_numberOfChunks hn
  omega

/-- A position inside chunk `n` has that chunk number. -/
theorem WellSized.div_eq_of_mem (hsized : m.WellSized) (hn : n < m.map.length) {x : Nat}
    (hlow : chunkmapFixedChunkSize * n ≤ x) (hhigh : x < m.chunkEnd n) :
    x / chunkmapFixedChunkSize = n := by
  have := hsized.sizeOfChunk_le hn
  rw [chunkEnd] at hhigh
  rw [chunkmapFixedChunkSize_eq] at *
  omega

theorem sum_min_chunk (size k : Nat) :
    ∑ i ∈ range k, min chunkmapFixedChunkSize (size - chunkmapFixedChunkSize * i) =
      min (chunkmapFixedChunkSize * k) size := by
  induction k with
  | zero => simp
  | succ k ih =>
      rw [sum_range_succ, ih, chunkmapFixedChunkSize_eq]
      omega

/-- **The chunks cover the file.** -/
theorem WellSized.sum_sizeOfChunk (hsized : m.WellSized) :
    ∑ i ∈ range m.map.length, m.sizeOfChunk i = m.fileSize := by
  calc
    ∑ i ∈ range m.map.length, m.sizeOfChunk i =
        ∑ i ∈ range m.map.length,
          min chunkmapFixedChunkSize (m.fileSize - chunkmapFixedChunkSize * i) :=
      sum_congr rfl fun i hi => hsized.sizeOfChunk_eq (mem_range.mp hi)
    _ = min (chunkmapFixedChunkSize * m.map.length) m.fileSize := sum_min_chunk _ _
    _ = m.fileSize := by
      rw [hsized.length_map]
      exact Nat.min_eq_right (le_mul_numberOfChunks _)

end ChunkMap

end RetroShare.Ft
