import RetroShare.Ft.ChunkMap

/-!
# Progress of a source

What `CompressedChunkMap` says about how much of a file a source has. The count of the chunks looks at
the length of the map, in 32 bits; the test of the last chunk does not.
-/

namespace RetroShare.Ft.CompressedChunkMap

open RetroShare.Word

/-- There is no count when the loop reads outside the vector. -/
def filledChunks (cmap : CompressedChunkMap) (nbchks : Nat) : Option Nat :=
  (List.range (min nbchks (wrap 32 (wrap 32 cmap.map.length * 32)))).foldlM
    (fun res i => do return add 32 res (← cmap.get? i).toNat) 0

/-- The last chunk is only looked at when it is not a whole one. -/
def computeProgress (cmap : CompressedChunkMap) (totalSize chunkSize : Nat) : Option Nat := do
  if totalSize = 0 then return 0
  let nbchks := wrap 32 (sub 64 (add 64 totalSize chunkSize) 1 / chunkSize)
  let residue := wrap 32 (totalSize % chunkSize)
  let last ← if residue ≠ 0 then cmap.get? (sub 32 nbchks 1) else some false
  let filled ← cmap.filledChunks nbchks
  if last then
    return add 64 (wrap 64 (sub 32 filled 1 * chunkSize)) (totalSize % chunkSize)
  else
    return wrap 64 (filled * chunkSize)

end RetroShare.Ft.CompressedChunkMap
