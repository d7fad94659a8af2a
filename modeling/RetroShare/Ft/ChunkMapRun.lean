import RetroShare.Foundation.Transition
import RetroShare.Ft.ChunkMap

/-!
# Runs of a chunk map

`ChunkMapOp` lists what the rest of the program does to a chunk map, one constructor per public
function that changes it. The caller of `getDataChunk` asks in a loop that runs while the size it
still wants is positive, so a size hint carries that bound.

The claim that a chunk leaves the table when its bytes have been handed out and received needs a
notion the program does not store: which bytes were. `Ledger` keeps it, one counter per byte since
the chunk of that byte last entered the table, and reads nothing but the operations and their
results.
-/

namespace RetroShare.Ft

/-- A positive `uint32_t`. -/
abbrev SizeHint := { n : Nat // 0 < n ∧ n < 2 ^ 32 }

inductive ChunkMapOp (PeerId : Type) where
  | getDataChunk (peerId : PeerId) (sizeHint : SizeHint) (now : Int) (rand : Nat)
  | reAskPendingChunk (peerId : PeerId) (now : Int)
  | dataReceived (cid : Nat) (now : Int)
  | removeInactiveChunks (now : Int)
  | setChunkCheckingResult (chunkNumber : Nat) (checkSucceeded : Bool)
  | getChunksToCheck
  | setPeerAvailabilityMap (peerId : PeerId) (cmap : CompressedChunkMap) (now : Int)
  | removeFileSource (peerId : PeerId)
  | setStrategy (strategy : ChunkStrategy)
  | setAvailabilityMap (cmap : CompressedChunkMap)
  | forceCheck

namespace ChunkMapOp

variable {PeerId : Type}

/-- The two operations that overwrite the state of every chunk. -/
def OverwritesMap : ChunkMapOp PeerId → Prop
  | setAvailabilityMap _ | forceCheck => True
  | _ => False

instance (op : ChunkMapOp PeerId) : Decidable op.OverwritesMap := by
  cases op <;> unfold OverwritesMap <;> infer_instance

end ChunkMapOp

namespace ChunkMap

variable {PeerId : Type} [LinearOrder PeerId]

def step (m : ChunkMap PeerId) : ChunkMapOp PeerId → Option (ChunkMap PeerId)
  | .getDataChunk peerId sizeHint now rand =>
      (m.getDataChunk peerId sizeHint now rand).map (·.1)
  | .reAskPendingChunk peerId now => (m.reAskPendingChunk peerId now).map (·.1)
  | .dataReceived cid now => m.dataReceived cid now
  | .removeInactiveChunks now => (m.removeInactiveChunks now).map (·.1)
  | .setChunkCheckingResult chunkNumber checkSucceeded =>
      m.setChunkCheckingResult chunkNumber checkSucceeded
  | .getChunksToCheck => some m.getChunksToCheck.2
  | .setPeerAvailabilityMap peerId cmap now => m.setPeerAvailabilityMap peerId cmap now
  | .removeFileSource peerId => some (m.removeFileSource peerId)
  | .setStrategy strategy => some (m.setStrategy strategy)
  | .setAvailabilityMap cmap => m.setAvailabilityMap cmap
  | .forceCheck => m.forceCheck

/-- The number of the chunk byte `x` of the file belongs to. -/
def chunkOf (x : Nat) : Nat := x / chunkmapFixedChunkSize

/-- The size of the pending slice `cid`, if it is one. -/
def pendingSize (m : ChunkMap PeerId) (cid : Nat) : Option Nat := do
  let info ← m.slicesToDownload[chunkOf cid]?
  let slice ← info.slices[cid]?
  some slice.size

/-- No chunk is being downloaded. -/
def Idle (m : ChunkMap PeerId) : Prop := m.slicesToDownload.isEmpty = true

instance (m : ChunkMap PeerId) : Decidable m.Idle := inferInstanceAs (Decidable (_ = _))

/-- The condition under which an operation is safe for the accounting: the map is only overwritten
while no chunk is being downloaded. -/
def Permits (m : ChunkMap PeerId) : ChunkMapOp PeerId → Prop
  | .forceCheck => m.Idle
  | .setAvailabilityMap cmap => m.RefusesMap cmap ∨ m.Idle
  | _ => True

instance (m : ChunkMap PeerId) (op : ChunkMapOp PeerId) : Decidable (m.Permits op) := by
  cases op <;> unfold Permits <;> infer_instance

end ChunkMap

/-! ### What happened to each byte -/

/-- How often each byte was handed out and received. -/
structure Ledger where
  handed : Nat → Nat
  received : Nat → Nat

namespace Ledger

/-- One more for each byte of `[offset, offset + size)`. -/
def bump (count : Nat → Nat) (offset size : Nat) : Nat → Nat :=
  fun x => if offset ≤ x ∧ x < offset + size then count x + 1 else count x

/-- Chunk `n` enters the table. -/
def clear (ledger : Ledger) (n : Nat) : Ledger :=
  { handed := fun x => if ChunkMap.chunkOf x = n then 0 else ledger.handed x
    received := fun x => if ChunkMap.chunkOf x = n then 0 else ledger.received x }

def hand (ledger : Ledger) (offset size : Nat) : Ledger :=
  { ledger with handed := bump ledger.handed offset size }

def receive (ledger : Ledger) (offset size : Nat) : Ledger :=
  { ledger with received := bump ledger.received offset size }

end Ledger

/-- A chunk map and the ledger of its bytes. -/
structure LedgeredMap (PeerId : Type) [LinearOrder PeerId] where
  chunkMap : ChunkMap PeerId
  ledger : Ledger

namespace LedgeredMap

variable {PeerId : Type} [LinearOrder PeerId]

def new (fileSize : Nat) (availability : Bool) : LedgeredMap PeerId :=
  { chunkMap := .new fileSize availability
    ledger := { handed := fun _ => 0, received := fun _ => 0 } }

/-- What an operation does to the ledger, given the slice it handed out, if any. -/
def account (s : LedgeredMap PeerId) (slice : Option (FtChunk PeerId)) : Ledger :=
  match slice with
  | none => s.ledger
  | some slice =>
      let n := ChunkMap.chunkOf slice.offset
      let ledger := if s.chunkMap.slicesToDownload.contains n then s.ledger else s.ledger.clear n
      ledger.hand slice.offset slice.size

def step (s : LedgeredMap PeerId) : ChunkMapOp PeerId → Option (LedgeredMap PeerId)
  | .getDataChunk peerId sizeHint now rand =>
      (s.chunkMap.getDataChunk peerId sizeHint now rand).map fun result =>
        { chunkMap := result.1, ledger := s.account result.2.1 }
  | .dataReceived cid now =>
      (s.chunkMap.dataReceived cid now).map fun chunkMap =>
        { chunkMap := chunkMap
          ledger := match s.chunkMap.pendingSize cid with
            | some size => s.ledger.receive cid size
            | none => s.ledger }
  | op => (s.chunkMap.step op).map fun chunkMap => { s with chunkMap := chunkMap }

end LedgeredMap

end RetroShare.Ft
