import RetroShare.GRouter.Router

/-!
# Data pipes

An item of the global router goes through a tunnel, or to a friend, in chunks. The receiver has one
pipe for each peer, with the chunks that have come so far as one long chunk. The propagation id is not
compared, and the time of the last chunk only serves to clean up idle pipes.
-/

namespace RetroShare.GRouter

/-- `CHUNK_SIZE` of `sliceDataItem`. -/
def chunkSizeLimit : Nat := 15000

/-- `MAX_GROUTER_DATA_SIZE + 10000` -/
def maxTotalSize : Nat := maxDataSize + 10000

/-- `RsGRouterTransactionChunkItem`. The deserialiser reads as many bytes as `chunk_size` says. -/
structure Chunk where
  propagationId : Nat
  chunkStart : Nat
  totalSize : Nat
  chunkData : List UInt8
  deriving DecidableEq

def Chunk.chunkSize (chunk : Chunk) : Nat := chunk.chunkData.length

/-- The loop of `sliceDataItem` over the serialised item. -/
def sliceFrom (propagationId : Nat) (data : List UInt8) : (passes offset : Nat) → List Chunk
  | 0, _ => []
  | passes + 1, offset =>
      if offset < data.length then
        let chunkSize := min (data.length - offset) chunkSizeLimit
        ⟨propagationId, offset, data.length, (data.drop offset).take chunkSize⟩ ::
          sliceFrom propagationId data passes (offset + chunkSize)
      else []

/-- `sliceDataItem`; every pass takes at least one byte. -/
def sliceDataItem (propagationId : Nat) (data : List UInt8) : List Chunk :=
  sliceFrom propagationId data data.length 0

/-- `incoming_data_buffer` -/
abbrev DataPipe := Option Chunk

/-- `GRouterDataInfo::addDataChunk`: the bytes that are deserialised when the item is finished. No sum
of sizes reaches `2 ^ 32` behind the first test. -/
def DataPipe.addDataChunk (pipe : DataPipe) (chunk : Chunk) : Option (List UInt8) × DataPipe :=
  if chunk.totalSize > maxTotalSize ∨ chunk.chunkSize > chunk.totalSize ∨
      chunk.chunkStart ≥ chunk.totalSize then (none, none)
  else
    match pipe with
    | none => if chunk.chunkStart ≠ 0 then (none, none) else finish chunk
    | some incoming =>
        if incoming.chunkSize ≠ chunk.chunkStart ∨ incoming.totalSize ≠ chunk.totalSize then (none, none)
        else finish { incoming with chunkData := incoming.chunkData ++ chunk.chunkData }
where
  /-- The end of `addDataChunk`, with the chunk added. -/
  finish (incoming : Chunk) : Option (List UInt8) × DataPipe :=
    if incoming.totalSize = incoming.chunkSize then (some incoming.chunkData, none)
    else (none, some incoming)

/-- The items that a pipe gives out for a sequence of chunks. -/
def DataPipe.receive : DataPipe → List Chunk → List (List UInt8) × DataPipe
  | pipe, [] => ([], pipe)
  | pipe, chunk :: rest =>
      let (item, pipe) := pipe.addDataChunk chunk
      let (items, pipe) := DataPipe.receive pipe rest
      (item.toList ++ items, pipe)

/-- An item that is sent, as it is serialised, and how many of its chunks arrive before the channel is
cut. The pipe may have been cleaned up before. -/
structure Transmission where
  propagationId : Nat
  bytes : List UInt8
  hasHeader : bytes ≠ []
  arrived : Nat
  cleaned : Bool

namespace Transmission

def chunks (sent : Transmission) : List Chunk :=
  (sliceDataItem sent.propagationId sent.bytes).take sent.arrived

/-- All chunks of the item arrive. -/
def Complete (sent : Transmission) : Prop :=
  (sliceDataItem sent.propagationId sent.bytes).length ≤ sent.arrived

instance (sent : Transmission) : Decidable sent.Complete := by
  unfold Complete
  infer_instance

end Transmission

/-- The items that a pipe gives out for items that are sent one after the other. -/
def DataPipe.receiveAll : DataPipe → List Transmission → List (List UInt8)
  | _, [] => []
  | pipe, sent :: rest =>
      let (items, pipe) := DataPipe.receive (if sent.cleaned then none else pipe) sent.chunks
      items ++ DataPipe.receiveAll pipe rest

end RetroShare.GRouter
