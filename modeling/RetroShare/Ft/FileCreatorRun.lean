import RetroShare.Ft.ChunkMapRun
import RetroShare.Ft.FileCreator

/-!
# Runs of a file creator

One constructor of `FileCreatorOp` per public function of `ftFileCreator`. Offsets and sizes are
what a peer can put in a packet: any `uint64_t` and any `uint32_t`.

Two ghosts run along. `arrived` holds the bytes that came in packets stored in full, since the slice
they belong to was handed out. `stored` holds the bytes of the file that some packet wrote, whether
or not they were asked for.
-/

namespace RetroShare.Ft

abbrev Word64 := { n : Nat // n < 2 ^ 64 }

abbrev Word32 := { n : Nat // n < 2 ^ 32 }

inductive FileCreatorOp (PeerId : Type) where
  | getMissingChunk (peerId : PeerId) (sizeHint : SizeHint) (now : Int) (rand : Nat)
  | addFileData (env : WriteEnv) (offset : Word64) (chunkSize : Word32) (data : Nat → UInt8)
  | removeInactiveChunks (now : Int)
  | getFileData (env : ReadEnv) (offset : Word64) (chunkSize : Word32) (allowUnverified : Bool)
  | verifyChunk (opening : OpenOutcome) (chunkNumber : Nat) (readable sumMatches : Bool)
  | setSourceMap (peerId : PeerId) (cmap : CompressedChunkMap) (now : Int)
  | removeFileSource (peerId : PeerId)
  | sourceIsComplete (peerId : PeerId)
  | setChunkStrategy (strategy : ChunkStrategy)
  | getChunksToCheck
  | closeFile
  | setAvailabilityMap (cmap : CompressedChunkMap)
  | forceCheck

namespace FileCreator

variable {PeerId : Type} [LinearOrder PeerId]

def step (s : FileCreator PeerId) : FileCreatorOp PeerId → Option (FileCreator PeerId)
  | .getMissingChunk peerId sizeHint now rand =>
      (s.getMissingChunk peerId sizeHint now rand).map (·.1)
  | .addFileData env offset chunkSize data =>
      (s.addFileData env offset chunkSize data).map (·.1)
  | .removeInactiveChunks now => s.removeInactiveChunks now
  | .getFileData env offset chunkSize allowUnverified =>
      (s.getFileData env offset chunkSize allowUnverified).map (·.1)
  | .verifyChunk opening chunkNumber readable sumMatches =>
      s.verifyChunk opening chunkNumber readable sumMatches
  | .setSourceMap peerId cmap now => s.setSourceMap peerId cmap now
  | .removeFileSource peerId => some (s.removeFileSource peerId)
  | .sourceIsComplete peerId => some (s.sourceIsComplete peerId).1
  | .setChunkStrategy strategy => some (s.setChunkStrategy strategy)
  | .getChunksToCheck => some s.getChunksToCheck.1
  | .closeFile => some s.closeFile
  | .setAvailabilityMap cmap => s.setAvailabilityMap cmap
  | .forceCheck => s.forceCheck

/-- The data of a call to `addFileData` reaches the file in full. -/
def Stores (s : FileCreator PeerId) (env : WriteEnv) (offset chunkSize : Nat) : Prop :=
  env.discSpace = true ∧ (s.fd = true ∨ env.opening ≠ .failed) ∧ offset < 2 ^ 63 ∧
    0 < s.clampedSize offset chunkSize ∧ s.clampedSize offset chunkSize ≤ env.taken

instance (s : FileCreator PeerId) (env : WriteEnv) (offset chunkSize : Nat) :
    Decidable (s.Stores env offset chunkSize) :=
  inferInstanceAs (Decidable (_ ∧ _))

/-- Some pending piece has room for the whole range. -/
def HasRoom (s : FileCreator PeerId) (offset size : Nat) : Prop :=
  ∃ entry ∈ s.mChunks.toList,
    entry.2.offset ≤ offset ∧ offset + size ≤ entry.2.offset + entry.2.size

instance (s : FileCreator PeerId) (offset size : Nat) : Decidable (s.HasRoom offset size) :=
  inferInstanceAs (Decidable (∃ entry ∈ _, _))

/-- No pending piece shares a byte with the range. -/
def Unasked (s : FileCreator PeerId) (offset size : Nat) : Prop :=
  ∀ entry ∈ s.mChunks.toList,
    entry.2.offset + entry.2.size ≤ offset ∨ offset + size ≤ entry.2.offset

instance (s : FileCreator PeerId) (offset size : Nat) : Decidable (s.Unasked offset size) :=
  inferInstanceAs (Decidable (∀ entry ∈ _, _))

/-- Stored data lies inside one pending piece or touches none, and the map of chunks is only
overwritten while no chunk is being downloaded. -/
def Permits (s : FileCreator PeerId) : FileCreatorOp PeerId → Prop
  | .addFileData env offset chunkSize _ =>
      s.Stores env offset chunkSize →
        s.HasRoom offset (s.clampedSize offset chunkSize) ∨
          s.Unasked offset (s.clampedSize offset chunkSize)
  | .setAvailabilityMap cmap => s.chunkMap.Permits (.setAvailabilityMap cmap)
  | .forceCheck => s.chunkMap.Permits .forceCheck
  | _ => True

end FileCreator

/-- A file creator with the bytes that arrived and the bytes that were stored. -/
structure LedgeredCreator (PeerId : Type) [LinearOrder PeerId] where
  creator : FileCreator PeerId
  arrived : Nat → Bool
  stored : Nat → Bool

namespace LedgeredCreator

variable {PeerId : Type} [LinearOrder PeerId]

def new (size : Nat) (availability : Bool) (file : PartialFile) (lastRecvTime : Int) :
    LedgeredCreator PeerId :=
  { creator := .new size availability file lastRecvTime
    arrived := fun _ => false
    stored := fun _ => false }

def setRange (mark : Nat → Bool) (offset size : Nat) (value : Bool) : Nat → Bool :=
  fun x => if offset ≤ x ∧ x < offset + size then value else mark x

/-- A slice that was not pending before is handed out: none of its bytes has arrived. -/
def arrivedAfterRequest (s : LedgeredCreator PeerId) (after : FileCreator PeerId)
    (request : Option (Nat × Nat)) : Nat → Bool :=
  match request with
  | none => s.arrived
  | some (offset, size) =>
      if s.creator.chunkMap.pendingSize offset = none ∧
          after.chunkMap.pendingSize offset = some size then
        setRange s.arrived offset size false
      else s.arrived

def arrivedAfterData (s : LedgeredCreator PeerId) (env : WriteEnv) (offset chunkSize : Nat) :
    Nat → Bool :=
  if s.creator.Stores env offset chunkSize then
    setRange s.arrived offset (s.creator.clampedSize offset chunkSize) true
  else s.arrived

/-- The bytes stored so far, given how the file was opened and how much of the write went
through. -/
def storedAfterData (s : LedgeredCreator PeerId) (env : WriteEnv) (offset chunkSize : Nat) :
    Nat → Bool :=
  if ¬ env.discSpace ∨ (¬ s.creator.fd ∧ env.opening = .failed) then s.stored
  else
    let kept := if ¬ s.creator.fd ∧ env.opening = .created then fun _ => false else s.stored
    if 2 ^ 63 ≤ offset then kept
    else setRange kept offset (min env.taken (s.creator.clampedSize offset chunkSize)) true

/-- Checking a chunk opens the file too, which may replace it by an empty one. -/
def storedAfterOpen (s : LedgeredCreator PeerId) (opening : OpenOutcome) : Nat → Bool :=
  if ¬ s.creator.fd ∧ opening = .created then fun _ => false else s.stored

def step (s : LedgeredCreator PeerId) : FileCreatorOp PeerId → Option (LedgeredCreator PeerId)
  | .getMissingChunk peerId sizeHint now rand =>
      (s.creator.getMissingChunk peerId sizeHint now rand).map fun result =>
        { s with
          creator := result.1
          arrived := s.arrivedAfterRequest result.1 result.2.1 }
  | .addFileData env offset chunkSize data =>
      (s.creator.addFileData env offset chunkSize data).map fun result =>
        { creator := result.1
          arrived := s.arrivedAfterData env offset chunkSize
          stored := s.storedAfterData env offset chunkSize }
  | .verifyChunk opening chunkNumber readable sumMatches =>
      (s.creator.verifyChunk opening chunkNumber readable sumMatches).map fun creator =>
        { s with creator := creator, stored := s.storedAfterOpen opening }
  | op => (s.creator.step op).map fun creator => { s with creator := creator }

end LedgeredCreator

end RetroShare.Ft
