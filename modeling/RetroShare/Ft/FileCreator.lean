import RetroShare.Ft.ChunkMap

/-!
# The creator of a partial file

`ftFileCreator` writes the data of a download to the partial file and keeps, in `mChunks`, the
pieces of slices that are still expected. A piece sits under its own offset; data that covers its
beginning shrinks it, data that starts inside it splits it in two, and the pieces of one slice share
a reference count. The slice is reported to the chunk map when the last piece is gone.

Counters are allocated on a heap: a pointer that was never allocated, or was freed, has no value,
and using it has no defined outcome. What the operating system decides (free disc space, whether the
file can be opened, how much of a write goes through) is an argument of the call.
-/

namespace RetroShare.Ft

open RetroShare.Word

def chunkMaxAge : Int := 120

def maxFtchunksPerPeer : Nat := 20

/-! ### The partial file -/

structure PartialFile where
  length : Nat
  byte : Nat → UInt8

namespace PartialFile

def empty : PartialFile := { length := 0, byte := fun _ => 0 }

/-- The byte at position `x`, if the file reaches that far. -/
def get? (file : PartialFile) (x : Nat) : Option UInt8 :=
  if x < file.length then some (file.byte x) else none

/-- `count` bytes of `data` at `offset`; a gap before them reads as zeros. -/
def write (file : PartialFile) (offset count : Nat) (data : Nat → UInt8) : PartialFile :=
  if count = 0 then file
  else
    { length := max file.length (offset + count)
      byte := fun x =>
        if offset ≤ x ∧ x < offset + count then data (x - offset)
        else if x < file.length then file.byte x
        else 0 }

end PartialFile

/-- How opening the partial file for writing ends: the existing file is opened, an empty one is
created in its place, or neither works. -/
inductive OpenOutcome where
  | opened
  | created
  | failed
deriving DecidableEq, Repr

/-- What the system answers during one `addFileData`. `taken` is the number of bytes of the write
that reach the file. -/
structure WriteEnv where
  discSpace : Bool
  opening : OpenOutcome
  taken : Nat
  now : Int
deriving DecidableEq

/-- What the system answers during one `getFileData`. -/
structure ReadEnv where
  opening : Bool
  readable : Bool
deriving DecidableEq

/-! ### The creator -/

structure FileCreator (PeerId : Type) [LinearOrder PeerId] where
  mSize : Nat
  fd : Bool
  file : PartialFile
  mChunks : OrderedMap Nat (FtChunk PeerId)
  mChunksPerPeer : OrderedMap PeerId Nat
  refCnts : OrderedMap Nat Int
  nextRef : Nat
  chunkMap : ChunkMap PeerId
  lastRecvTime : Int

namespace FileCreator

variable {PeerId : Type} [LinearOrder PeerId]

/-- A new creator over whatever partial file is found on disc. -/
def new (size : Nat) (availability : Bool) (file : PartialFile) (lastRecvTime : Int) :
    FileCreator PeerId :=
  { mSize := size
    fd := false
    file := file
    mChunks := ∅
    mChunksPerPeer := ∅
    refCnts := ∅
    nextRef := 0
    chunkMap := .new size availability
    lastRecvTime := lastRecvTime }

/-- `++(*chunk.ref_cnt)`. -/
def incRef (s : FileCreator PeerId) (chunk : FtChunk PeerId) : Option (FileCreator PeerId) := do
  let ref ← chunk.refCnt
  let count ← s.refCnts[ref]?
  some { s with refCnts := s.refCnts.insert ref (count + 1) }

/-- `--(*chunk.ref_cnt)`, and `delete` when that leaves zero. The result says whether it did. -/
def decRef (s : FileCreator PeerId) (chunk : FtChunk PeerId) :
    Option (FileCreator PeerId × Bool) := do
  let ref ← chunk.refCnt
  let count ← s.refCnts[ref]?
  if count - 1 = 0 then
    some ({ s with refCnts := s.refCnts.erase ref }, true)
  else
    some ({ s with refCnts := s.refCnts.insert ref (count - 1) }, false)

/-- `--mChunksPerPeer[peer_id].cnt`. -/
def decPeer (s : FileCreator PeerId) (peerId : PeerId) : FileCreator PeerId :=
  { s with mChunksPerPeer :=
      s.mChunksPerPeer.insert peerId (sub 32 (s.mChunksPerPeer.getD peerId 0) 1) }

/-! ### Asking for data -/

/-- The first loop of `getMissingChunk`: a piece that was asked for too long ago and that the peer
has. Looking up the record of the peer may create it. -/
def oldPiece (peerId : PeerId) (now : Int) :
    List (Nat × FtChunk PeerId) → ChunkMap PeerId →
      Option (ChunkMap PeerId × Option (Nat × FtChunk PeerId))
  | [], m => some (m, none)
  | (key, chunk) :: rest, m =>
      if chunk.ts + chunkMaxAge < now then do
        let (m, info) := m.getSourceChunksInfo peerId
        if ← info.has? (wrap 32 (chunk.offset / chunkmapFixedChunkSize)) then
          some (m, some (key, chunk))
        else oldPiece peerId now rest m
      else oldPiece peerId now rest m

/-- The offset and size to request from the peer, if any, and whether its map is needed. -/
def getMissingChunk (s : FileCreator PeerId) (peerId : PeerId) (sizeHint : Nat) (now : Int)
    (rand : Nat) : Option (FileCreator PeerId × Option (Nat × Nat) × Bool) := do
  let (m, old) ← oldPiece peerId now s.mChunks.toList s.chunkMap
  let s := { s with chunkMap := m }
  match old with
  | some (key, chunk) =>
      some ({ s with mChunks := s.mChunks.insert key { chunk with ts := now } },
        some (chunk.offset, wrap 32 chunk.size), false)
  | none =>
      let count := s.mChunksPerPeer.getD peerId 0
      let s := { s with mChunksPerPeer := s.mChunksPerPeer.insert peerId count }
      if maxFtchunksPerPeer ≤ count then
        some (s, none, false)
      else
        let (m, chunk, mapNeeded) ← s.chunkMap.getDataChunk peerId sizeHint now rand
        let s := { s with chunkMap := m }
        match chunk with
        | none =>
            let (m, asked) ← s.chunkMap.reAskPendingChunk peerId now
            some ({ s with chunkMap := m }, asked, mapNeeded.getD false)
        | some chunk =>
            let chunk := { chunk with refCnt := some s.nextRef }
            some ({ s with
                refCnts := s.refCnts.insert s.nextRef 1
                nextRef := s.nextRef + 1
                mChunks := s.mChunks.insert chunk.offset chunk
                mChunksPerPeer := s.mChunksPerPeer.insert peerId (add 32 count 1) },
              some (chunk.offset, wrap 32 chunk.size), mapNeeded.getD false)

/-! ### Receiving data -/

/-- The end of `locked_notifyReceived`: the first `chunkSize` bytes of `chunk`, which is no longer
in `mChunks`, have arrived. The result names the slice reported to the chunk map, if one is. -/
def shrinkPiece (s : FileCreator PeerId) (chunk : FtChunk PeerId) (chunkSize : Nat) (now : Int) :
    Option (FileCreator PeerId × Option Nat) :=
  if chunk.size ≠ chunkSize then
    let rest := { chunk with
      size := sub 64 chunk.size chunkSize
      offset := add 64 chunk.offset chunkSize }
    some ({ s with mChunks := s.mChunks.insert rest.offset rest, lastRecvTime := now }, none)
  else do
    let (s, last) ← s.decRef chunk
    if last then
      let m ← s.chunkMap.dataReceived chunk.id now
      some ({ s.decPeer chunk.peerId with chunkMap := m, lastRecvTime := now }, some chunk.id)
    else
      some ({ s with lastRecvTime := now }, none)

/-- A piece that starts strictly before the data and does not end before it. -/
def splits (offset chunkSize : Nat) (chunk : FtChunk PeerId) : Bool :=
  decide (chunk.offset < offset) &&
    decide (add 64 chunkSize offset ≤ add 64 chunk.size chunk.offset)

def notifyReceived (s : FileCreator PeerId) (offset chunkSize : Nat) (now : Int) :
    Option (FileCreator PeerId × Option Nat) :=
  match s.mChunks[offset]? with
  | some chunk => { s with mChunks := s.mChunks.erase offset }.shrinkPiece chunk chunkSize now
  | none =>
      match s.mChunks.toList.find? fun entry => splits offset chunkSize entry.2 with
      | none => some (s, none)
      | some (_, whole) => do
          let first := { whole with size := sub 64 offset whole.offset }
          let second := { whole with offset := offset, size := sub 64 whole.size first.size }
          let s ← { s with mChunks := s.mChunks.insert first.offset first }.incRef second
          s.shrinkPiece second chunkSize now

/-- `locked_initializeFileAttrs`. -/
def initializeFileAttrs (s : FileCreator PeerId) (opening : OpenOutcome) :
    Option (FileCreator PeerId) :=
  if s.fd then some s
  else match opening with
    | .opened => some { s with fd := true }
    | .created => some { s with fd := true, file := .empty }
    | .failed => none

/-- The size of the write, cut at the end of the file in mixed 32- and 64-bit arithmetic. -/
def clampedSize (s : FileCreator PeerId) (offset chunkSize : Nat) : Nat :=
  if s.mSize < add 64 offset chunkSize then wrap 32 (sub 64 s.mSize offset) else chunkSize

/-- The state after the data was stored, whether it was, and the slice reported to the chunk map.
An offset from `2 ^ 63` on is negative for `fseeko64`, which refuses it. -/
def addFileData (s : FileCreator PeerId) (env : WriteEnv) (offset chunkSize : Nat)
    (data : Nat → UInt8) : Option (FileCreator PeerId × Bool × Option Nat) :=
  if ¬ env.discSpace then some (s, false, none)
  else match s.initializeFileAttrs env.opening with
    | none => some (s, false, none)
    | some s =>
        let size := s.clampedSize offset chunkSize
        if 2 ^ 63 ≤ offset then some (s, false, none)
        else
          let s := { s with file := s.file.write offset (min env.taken size) data }
          if size = 0 ∨ env.taken < size then some (s, false, none)
          else do
            let (s, reported) ← s.notifyReceived offset size env.now
            some ({ s with fd := s.fd && !s.chunkMap.isComplete }, true, reported)

/-- `ftTransferModule::recvFileData`: the peer must be a source, nothing else is checked. -/
def recvFileData (s : FileCreator PeerId) (fileSources : Finset PeerId) (env : WriteEnv)
    (peerId : PeerId) (offset chunkSize : Nat) (data : Nat → UInt8) :
    Option (FileCreator PeerId × Bool × Option Nat) :=
  if peerId ∈ fileSources then s.addFileData env offset chunkSize data
  else some (s, false, none)

/-! ### Dropping what peers do not send -/

/-- The inner loop of `removeInactiveChunks` for one slice. -/
def removePieces (id : Nat) :
    List (Nat × FtChunk PeerId) → FileCreator PeerId → Option (FileCreator PeerId)
  | [], s => some s
  | (key, chunk) :: rest, s =>
      if chunk.id = id then do
        let (s, _) ← s.decRef chunk
        let s := s.decPeer chunk.peerId
        removePieces id rest { s with mChunks := s.mChunks.erase key }
      else removePieces id rest s

def removeSlices : List Nat → FileCreator PeerId → Option (FileCreator PeerId)
  | [], s => some s
  | id :: rest, s => do
      let s ← removePieces id s.mChunks.toList s
      removeSlices rest s

def removeInactiveChunks (s : FileCreator PeerId) (now : Int) : Option (FileCreator PeerId) := do
  let (m, toRemove) ← s.chunkMap.removeInactiveChunks now
  removeSlices toRemove { s with chunkMap := m }

/-! ### Serving data -/

/-- The loop over the pending pieces in `getFileData`: the size left of the request, and whether the
data is still thought to be there. -/
def trimRequest (offset : Nat) : List (FtChunk PeerId) → Nat → Bool → Nat × Bool
  | [], size, haveIt => (size, haveIt)
  | chunk :: rest, size, haveIt =>
      let size :=
        if offset ≤ chunk.offset ∧ chunk.offset < add 64 offset size then
          wrap 32 (sub 64 chunk.offset offset)
        else size
      let stop := add 64 chunk.offset chunk.size
      let haveIt := haveIt && !(decide (offset ≤ stop) && decide (stop < add 64 offset size))
      trimRequest offset rest size haveIt

/-- `ftFileProvider::getFileData`: the number of bytes read, if the read succeeds. -/
def provide (s : FileCreator PeerId) (env : ReadEnv) (offset chunkSize : Nat) :
    FileCreator PeerId × Option Nat :=
  if ¬ s.fd ∧ ¬ env.opening then (s, none)
  else
    let s := { s with fd := true }
    if s.mSize ≤ offset then (s, none)
    else
      let size := if s.mSize < add 64 offset chunkSize then wrap 32 (sub 64 s.mSize offset)
        else chunkSize
      if size = 0 ∨ 2 ^ 63 ≤ offset then (s, none)
      else if offset + size ≤ s.file.length ∧ env.readable then (s, some size)
      else (s, none)

/-- `ftFileCreator::getFileData`. The outer option is `none` when `_map` is read outside its bounds;
the inner one holds the number of bytes served. -/
def getFileData (s : FileCreator PeerId) (env : ReadEnv) (offset chunkSize : Nat)
    (allowUnverified : Bool) : Option (FileCreator PeerId × Option Nat) := do
  let available ← s.chunkMap.isChunkAvailable offset chunkSize
  if available then
    some (s.provide env offset chunkSize)
  else if allowUnverified then
    let (size, haveIt) := trimRequest offset (s.mChunks.toList.map Prod.snd) chunkSize true
    let outstanding ← s.chunkMap.isChunkOutstanding offset size
    some (if haveIt && !outstanding then s.provide env offset size else (s, none))
  else
    some (s, none)

/-! ### The rest of the interface -/

/-- `verifyChunk`, given whether the chunk could be opened and read and whether its sum matched. -/
def verifyChunk (s : FileCreator PeerId) (opening : OpenOutcome) (chunkNumber : Nat)
    (readable sumMatches : Bool) : Option (FileCreator PeerId) :=
  match s.initializeFileAttrs opening with
  | none => some s
  | some s => do
      let m ← s.chunkMap.setChunkCheckingResult chunkNumber (readable && sumMatches)
      some { s with chunkMap := m }

def setSourceMap (s : FileCreator PeerId) (peerId : PeerId) (cmap : CompressedChunkMap)
    (now : Int) : Option (FileCreator PeerId) := do
  let m ← s.chunkMap.setPeerAvailabilityMap peerId cmap now
  some { s with chunkMap := m }

def removeFileSource (s : FileCreator PeerId) (peerId : PeerId) : FileCreator PeerId :=
  { s with chunkMap := s.chunkMap.removeFileSource peerId }

def sourceIsComplete (s : FileCreator PeerId) (peerId : PeerId) : FileCreator PeerId × Bool :=
  let (m, info) := s.chunkMap.getSourceChunksInfo peerId
  ({ s with chunkMap := m }, info.isFull)

def setChunkStrategy (s : FileCreator PeerId) (strategy : ChunkStrategy) : FileCreator PeerId :=
  { s with chunkMap := s.chunkMap.setStrategy strategy }

def getChunksToCheck (s : FileCreator PeerId) : FileCreator PeerId × List Nat :=
  let (chunks, m) := s.chunkMap.getChunksToCheck
  ({ s with chunkMap := m }, chunks)

def setAvailabilityMap (s : FileCreator PeerId) (cmap : CompressedChunkMap) :
    Option (FileCreator PeerId) := do
  let m ← s.chunkMap.setAvailabilityMap cmap
  some { s with chunkMap := m }

def forceCheck (s : FileCreator PeerId) : Option (FileCreator PeerId) := do
  let m ← s.chunkMap.forceCheck
  some { s with chunkMap := m }

def closeFile (s : FileCreator PeerId) : FileCreator PeerId := { s with fd := false }

end FileCreator

end RetroShare.Ft
