import Mathlib.Data.Finset.Insert
import RetroShare.Foundation.OrderedMap
import RetroShare.Foundation.Word

/-!
# The chunk map of a file transfer

`ChunkMap` cuts a file into chunks of 1 MB and follows each of them from outstanding to done. A
chunk that is being downloaded is known in three places: `map` says it is active,
`slicesToDownload` holds the slices of it that peers were asked for, and `activeChunksFeed` holds,
under the peer that opened the chunk, the part no slice has been cut from yet.

Every operation returns `none` where the program has no defined outcome: an index outside a
vector, a division by zero, or a loop over `uint32_t` indices of a vector too long for it to end.
The clock and `rand()` are arguments, read once a call.
-/

namespace RetroShare.Ft

open RetroShare.Word

/-- `ChunkMap::CHUNKMAP_FIXED_CHUNK_SIZE`, which is also the value of `_chunk_size`. -/
def chunkmapFixedChunkSize : Nat := 1024 * 1024

def sourceChunkMapUpdatePeriod : Int := 60

def inactiveChunkTimeLapse : Int := 3600

def ftChunkmapMaxChunkJump : Nat := 50

def ftChunkmapMaxSliceReaskDelay : Int := 10

inductive ChunkState where
  | outstanding
  | active
  | done
  | checking
deriving DecidableEq, Repr

inductive ChunkStrategy where
  | streaming
  | random
  | progressive
deriving DecidableEq, Repr

/-- A slice handed out to a peer. `refCnt` points to a counter shared by the pieces of a slice that
arrives in several parts; the chunk map itself never sets it. -/
structure FtChunk (PeerId : Type) where
  offset : Nat
  size : Nat
  id : Nat
  ts : Int
  refCnt : Option Nat
  peerId : PeerId
deriving DecidableEq

/-- The part `[offset, end)` of an active chunk that is still to be cut into slices. -/
structure Chunk where
  start : Nat
  offset : Nat
  «end» : Nat
deriving DecidableEq, Repr

def Chunk.new (start size : Nat) : Chunk :=
  { start := start, offset := start, «end» := add 64 size start }

def Chunk.empty (chunk : Chunk) : Bool := chunk.offset == chunk.end

/-- `Chunk::getSlice`: the offset and size of the slice, and the chunk without it. -/
def Chunk.getSlice (chunk : Chunk) (sizeHint : Nat) : Nat × Nat × Chunk :=
  let size := min sizeHint (wrap 32 (sub 64 chunk.end chunk.offset))
  (chunk.offset, size, { chunk with offset := add 64 chunk.offset size })

structure SliceRequestInfo (PeerId : Type) where
  size : Nat
  requestTime : Int
  peers : Finset PeerId

structure ChunkDownloadInfo (PeerId : Type) where
  slices : OrderedMap Nat (SliceRequestInfo PeerId)
  remains : Nat
  lastDataReceived : Int

/-- What `operator[]` of a `std::map` puts under a key that was absent. -/
def ChunkDownloadInfo.fresh (PeerId : Type) : ChunkDownloadInfo PeerId :=
  { slices := ∅, remains := 0, lastDataReceived := 0 }

def SliceRequestInfo.fresh (PeerId : Type) : SliceRequestInfo PeerId :=
  { size := 0, requestTime := 0, peers := ∅ }

/-! ### Availability maps of the peers -/

/-- One bit a chunk, in words of 32 bits. -/
structure CompressedChunkMap where
  map : List Nat
deriving DecidableEq

def CompressedChunkMap.getCompressedSize (size : Nat) : Nat :=
  wrap 32 size / 32 + (wrap 32 size % 32 != 0).toNat

/-- `operator[]`, which reads outside the vector when the map is too short. -/
def CompressedChunkMap.get? (cmap : CompressedChunkMap) (i : Nat) : Option Bool :=
  (cmap.map[i / 32]?).map fun word => word.testBit (i % 32)

structure SourceChunksInfo where
  cmap : CompressedChunkMap
  ts : Int
  isFull : Bool
deriving DecidableEq

/-- `sci->is_full || sci->cmap[c]`. -/
def SourceChunksInfo.has? (info : SourceChunksInfo) (c : Nat) : Option Bool :=
  if info.isFull then some true else info.cmap.get? c

/-! ### The map -/

structure ChunkMap (PeerId : Type) [LinearOrder PeerId] where
  fileSize : Nat
  strategy : ChunkStrategy
  activeChunksFeed : OrderedMap PeerId Chunk
  slicesToDownload : OrderedMap Nat (ChunkDownloadInfo PeerId)
  map : List ChunkState
  peersChunksAvailability : OrderedMap PeerId SourceChunksInfo
  totalDownloaded : Nat
  fileIsComplete : Bool
  assumeAvailability : Bool
  chunksCheckingQueue : List Nat

/-- How many chunks a file of `size` bytes is cut into. -/
def numberOfChunks (size : Nat) : Nat :=
  size / chunkmapFixedChunkSize + if size % chunkmapFixedChunkSize = 0 then 0 else 1

namespace ChunkMap

variable {PeerId : Type} [LinearOrder PeerId]

def new (fileSize : Nat) (availability : Bool) : ChunkMap PeerId :=
  { fileSize := fileSize
    strategy := .progressive
    activeChunksFeed := ∅
    slicesToDownload := ∅
    map := List.replicate (numberOfChunks fileSize) .outstanding
    peersChunksAvailability := ∅
    totalDownloaded := 0
    fileIsComplete := false
    assumeAvailability := availability
    chunksCheckingQueue := [] }

/-- A `uint32_t` index runs through the whole of `_map`; from `2 ^ 32` entries on the loop has no
end. -/
def Loopable (m : ChunkMap PeerId) : Prop := m.map.length < 2 ^ 32

instance (m : ChunkMap PeerId) : Decidable m.Loopable :=
  inferInstanceAs (Decidable (_ < _))

/-- A loop over `_map` that ends early at the first chunk with `stop`; the result says whether it
met one. -/
def scan (m : ChunkMap PeerId) (stop : ChunkState → Bool) : Option Bool :=
  if m.Loopable then some (m.map.any stop)
  else if (m.map.take (2 ^ 32)).any stop then some true
  else none

def sizeOfChunk (m : ChunkMap PeerId) (cid : Nat) : Nat :=
  if cid = sub 64 m.map.length 1 then
    wrap 32 (sub 64 m.fileSize (wrap 32 (cid * chunkmapFixedChunkSize)))
  else
    chunkmapFixedChunkSize

/-! ### Download completion -/

/-- The first loop of `updateTotalDownloaded`: what chunk `i` adds. -/
def rawContribution (m : ChunkMap PeerId) (i : Nat) (state : ChunkState) : Nat :=
  match state with
  | .checking | .done => m.sizeOfChunk i
  | _ => 0

/-- The second loop: an active chunk counts for what was received of it. A chunk that is both in
the table and marked as being checked was counted in full by the first loop. -/
def pendingContribution (m : ChunkMap PeerId) (total : Nat) :
    List (Nat × ChunkDownloadInfo PeerId) → Option Nat
  | [] => some total
  | (n, info) :: rest => do
      let state ← m.map[n]?
      let total := if state = .checking then sub 64 total (m.sizeOfChunk n) else total
      pendingContribution m (add 64 total (sub 32 (m.sizeOfChunk n) info.remains)) rest

def updateTotalDownloaded (m : ChunkMap PeerId) : Option (ChunkMap PeerId) :=
  if m.Loopable then do
    let raw := (m.map.mapIdx m.rawContribution).foldl (add 64) 0
    let total ← m.pendingContribution raw m.slicesToDownload.toList
    some { m with
      totalDownloaded := total
      fileIsComplete := m.map.all (· == .done) }
  else none

/-- The message goes to the slice whose identifier is `cid`. The chunk number is an `int`, so from
`2 ^ 31` on the index into `_map` is negative. -/
def dataReceived (m : ChunkMap PeerId) (cid : Nat) (now : Int) : Option (ChunkMap PeerId) :=
  let n := wrap 32 (cid / chunkmapFixedChunkSize)
  match m.slicesToDownload[n]? with
  | none => some m
  | some info =>
      match info.slices[cid]? with
      | none => some m
      | some slice =>
          let total := add 64 m.totalDownloaded slice.size
          let info := { info with
            remains := sub 32 info.remains slice.size
            slices := info.slices.erase cid
            lastDataReceived := now }
          if info.remains = 0 then
            if n < 2 ^ 31 ∧ n < m.map.length then
              let m := if 0 < n ∨ chunkmapFixedChunkSize < m.fileSize then
                  { m with
                    map := m.map.set n .checking
                    chunksCheckingQueue := m.chunksCheckingQueue ++ [n] }
                else { m with map := m.map.set n .done }
              updateTotalDownloaded
                { m with
                  totalDownloaded := total
                  slicesToDownload := m.slicesToDownload.erase n }
            else none
          else
            some { m with
              totalDownloaded := total
              slicesToDownload := m.slicesToDownload.insert n info }

def isComplete (m : ChunkMap PeerId) : Bool := m.fileIsComplete

/-- The queue is emptied from the front, the last entry taking the place of the one removed. -/
def drainQueue : Nat → List Nat → List Nat
  | 0, _ => []
  | _, [] => []
  | fuel + 1, first :: rest =>
      first :: drainQueue fuel (rest.getLast?.toList ++ rest.dropLast)

def getChunksToCheck (m : ChunkMap PeerId) : List Nat × ChunkMap PeerId :=
  (drainQueue m.chunksCheckingQueue.length m.chunksCheckingQueue,
    { m with chunksCheckingQueue := [] })

def setChunkCheckingResult (m : ChunkMap PeerId) (chunkNumber : Nat) (checkSucceeded : Bool) :
    Option (ChunkMap PeerId) := do
  let state ← m.map[chunkNumber]?
  if state ≠ .checking then
    some m
  else if checkSucceeded then
    let m := { m with map := m.map.set chunkNumber .done }
    let unfinished ← m.scan (· != .done)
    some { m with fileIsComplete := !unfinished }
  else
    some { m with
      totalDownloaded := sub 64 m.totalDownloaded (m.sizeOfChunk chunkNumber)
      map := m.map.set chunkNumber .outstanding }

/-- Every chunk goes to the checking state, whatever state it was in. -/
def forceCheck (m : ChunkMap PeerId) : Option (ChunkMap PeerId) :=
  if m.Loopable then
    updateTotalDownloaded { m with
      map := m.map.map fun _ => .checking
      chunksCheckingQueue := m.chunksCheckingQueue ++ List.range m.map.length }
  else none

/-! ### Peers and their availability -/

def getSourceChunksInfo (m : ChunkMap PeerId) (peerId : PeerId) :
    ChunkMap PeerId × SourceChunksInfo :=
  match m.peersChunksAvailability[peerId]? with
  | some info => (m, info)
  | none =>
      let size := CompressedChunkMap.getCompressedSize m.map.length
      let word := if m.assumeAvailability then 2 ^ 32 - 1 else 0
      let info : SourceChunksInfo :=
        { cmap := ⟨List.replicate size word⟩, ts := 0, isFull := m.assumeAvailability }
      ({ m with peersChunksAvailability := m.peersChunksAvailability.insert peerId info }, info)

def setPeerAvailabilityMap (m : ChunkMap PeerId) (peerId : PeerId) (cmap : CompressedChunkMap)
    (now : Int) : Option (ChunkMap PeerId) :=
  if cmap.map.length ≠ m.map.length / 32 + (m.map.length % 32 != 0).toNat then
    some m
  else
    let full := (List.range (min m.map.length (2 ^ 32))).all fun i => cmap.get? i == some true
    if full ∧ ¬ m.Loopable then none
    else some { m with
      peersChunksAvailability :=
        m.peersChunksAvailability.insert peerId { cmap := cmap, ts := now, isFull := full } }

def removeFileSource (m : ChunkMap PeerId) (peerId : PeerId) : ChunkMap PeerId :=
  { m with peersChunksAvailability := m.peersChunksAvailability.erase peerId }

/-- The value of a `uint32_t` (or `size_t`) converted to `int`. -/
def toInt32 (n : Nat) : Int := (BitVec.ofNat 32 n).toInt

/-- The sanity check of `setAvailabilityMap`: the map received is too small. -/
def RefusesMap (m : ChunkMap PeerId) (cmap : CompressedChunkMap) : Prop :=
  toInt32 cmap.map.length ≤ (toInt32 m.map.length - 1).fdiv 32

instance (m : ChunkMap PeerId) (cmap : CompressedChunkMap) : Decidable (m.RefusesMap cmap) :=
  inferInstanceAs (Decidable (_ ≤ _))

def setAvailabilityMap (m : ChunkMap PeerId) (cmap : CompressedChunkMap) :
    Option (ChunkMap PeerId) :=
  if toInt32 m.map.length = -(2 ^ 31) then none
  else if m.RefusesMap cmap then
    some m
  else if m.Loopable ∧ (List.range m.map.length).all fun i => (cmap.get? i).isSome then
    let bits := (List.range m.map.length).map fun i => cmap.get? i == some true
    let m := { m with map := bits.map fun (bit : Bool) => if bit then .done else .outstanding }
    some { m with
      fileIsComplete := bits.all id
      totalDownloaded := (m.map.mapIdx m.rawContribution).foldl (add 64) 0 }
  else none

def setStrategy (m : ChunkMap PeerId) (strategy : ChunkStrategy) : ChunkMap PeerId :=
  { m with strategy := strategy }

/-! ### Choosing a chunk -/

/-- The first loop of `getAvailableChunk`, from chunk `i` on: how many outstanding chunks the peer
has, and how many of them precede the last chunk that is not outstanding. -/
def countAvailable (info : SourceChunksInfo) (i available beforeMaxDist : Nat) :
    List ChunkState → Option (Nat × Nat)
  | [] => some (available, beforeMaxDist)
  | .outstanding :: rest => do
      if ← info.has? i then
        countAvailable info (i + 1) (available + 1) beforeMaxDist rest
      else
        countAvailable info (i + 1) available beforeMaxDist rest
  | _ :: rest => countAvailable info (i + 1) available available rest

/-- The second loop: the number of the `chosen`-th outstanding chunk the peer has. -/
def nthAvailable (info : SourceChunksInfo) (i chosen : Nat) :
    List ChunkState → Option (Option Nat)
  | [] => some none
  | .outstanding :: rest => do
      if ← info.has? i then
        match chosen with
        | 0 => some (some i)
        | chosen + 1 => nthAvailable info (i + 1) chosen rest
      else
        nthAvailable info (i + 1) chosen rest
  | _ :: rest => nthAvailable info (i + 1) chosen rest

/-- `rand() % bound`. -/
def randBelow (rand bound : Nat) : Option Nat :=
  if bound = 0 then none else some (rand % bound)

def chosenChunkNumber (m : ChunkMap PeerId) (available beforeMaxDist rand : Nat) : Option Nat :=
  match m.strategy with
  | .streaming => some 0
  | .random => randBelow rand available
  | .progressive =>
      randBelow rand (min available (add 32 beforeMaxDist ftChunkmapMaxChunkJump))

/-- The test on the age of a peer's record, on both times cut to `int`. -/
def isTooOld (info : SourceChunksInfo) (now : Int) : Bool :=
  !info.isFull && decide (sourceChunkMapUpdatePeriod <
    toInt32 (now % 2 ^ 32).toNat - toInt32 (info.ts % 2 ^ 32).toNat)

def refreshRecord (m : ChunkMap PeerId) (peerId : PeerId) (info : SourceChunksInfo) (now : Int) :
    ChunkMap PeerId :=
  if isTooOld info now then
    { m with peersChunksAvailability :=
        m.peersChunksAvailability.insert peerId { info with ts := now } }
  else m

/-- A chunk number, `_map.size()` when the peer has nothing to offer, and whether the peer's map
is old enough to be asked for again. -/
def getAvailableChunk (m : ChunkMap PeerId) (peerId : PeerId) (now : Int) (rand : Nat) :
    Option (ChunkMap PeerId × Nat × Bool) := do
  let (m, info) := m.getSourceChunksInfo peerId
  let mapIsTooOld := isTooOld info now
  let m := m.refreshRecord peerId info now
  if ¬ m.Loopable then none
  else
    let (available, beforeMaxDist) ← countAvailable info 0 0 0 m.map
    if available = 0 then
      some (m, m.map.length, mapIsTooOld)
    else
      let chosen ← m.chosenChunkNumber available beforeMaxDist rand
      let found ← nthAvailable info 0 chosen m.map
      some (m, found.getD m.map.length, mapIsTooOld)

/-! ### Handing out slices -/

/-- A feed is shared with a new peer when the last slice cut from its chunk is not much larger than
what the peer asks for: `size * 0.7 <= (float) size_hint`, which for the sizes of slices of one
chunk is this comparison. -/
def sharable (info : ChunkDownloadInfo PeerId) (sizeHint : Nat) : Bool :=
  match info.slices.maxEntry? with
  | some (_, slice) => decide (7 * slice.size ≤ 10 * sizeHint)
  | none => false

/-- The loop over the feeds of the other peers. It returns the peer whose feed is shared, and the
last peer whose feed could be taken if nothing else is left. -/
def shareFeed (info : SourceChunksInfo) (sizeHint : Nat) :
    List (PeerId × Chunk) → ChunkMap PeerId → Option PeerId →
      Option (ChunkMap PeerId × Option PeerId × Option PeerId)
  | [], m, failsafe => some (m, none, failsafe)
  | (peerId, chunk) :: rest, m, failsafe => do
      let c := wrap 32 (chunk.start / chunkmapFixedChunkSize)
      if ← info.has? c then
        let cdi := m.slicesToDownload.getD c (.fresh PeerId)
        let m := { m with slicesToDownload := m.slicesToDownload.insert c cdi }
        if sharable cdi sizeHint then some (m, some peerId, some peerId)
        else shareFeed info sizeHint rest m (some peerId)
      else
        shareFeed info sizeHint rest m failsafe

/-- Chunk `c` becomes active, under the feed of `peerId`. -/
def openChunk (m : ChunkMap PeerId) (peerId : PeerId) (c : Nat) : ChunkMap PeerId :=
  let soc := m.sizeOfChunk c
  { m with
    activeChunksFeed := m.activeChunksFeed.insert peerId (Chunk.new (c * chunkmapFixedChunkSize) soc)
    map := m.map.set c .active
    slicesToDownload := m.slicesToDownload.insert c
      { m.slicesToDownload.getD c (.fresh PeerId) with remains := soc } }

/-- The end of `getDataChunk`: a slice is cut from the feed of `feeder` and recorded as requested
from `peerId`. -/
def cutSlice (m : ChunkMap PeerId) (feeder peerId : PeerId) (sizeHint : Nat) (now : Int) :
    Option (ChunkMap PeerId × FtChunk PeerId) := do
  let feed ← m.activeChunksFeed[feeder]?
  let (offset, size, feed) := feed.getSlice sizeHint
  let c := wrap 32 (offset / chunkmapFixedChunkSize)
  let info := m.slicesToDownload.getD c (.fresh PeerId)
  let slice := info.slices.getD offset (.fresh PeerId)
  let slice := { slice with size := size, requestTime := now, peers := insert peerId slice.peers }
  let info := { info with
    lastDataReceived := now
    slices := info.slices.insert offset slice }
  some
    ({ m with
      slicesToDownload := m.slicesToDownload.insert c info
      activeChunksFeed :=
        if feed.empty then m.activeChunksFeed.erase feeder
        else m.activeChunksFeed.insert feeder feed },
      { offset := offset, size := size, id := offset, ts := now, refCnt := none, peerId := peerId })

/-- The slice handed out, if any, and what was stored in `source_chunk_map_needed`, if anything. -/
def getDataChunk (m : ChunkMap PeerId) (peerId : PeerId) (sizeHint : Nat) (now : Int)
    (rand : Nat) : Option (ChunkMap PeerId × Option (FtChunk PeerId) × Option Bool) := do
  if m.activeChunksFeed.contains peerId then
    let (m, chunk) ← m.cutSlice peerId peerId sizeHint now
    some (m, some chunk, none)
  else
    let (m, info) := m.getSourceChunksInfo peerId
    let (m, shared, failsafe) ← shareFeed info sizeHint m.activeChunksFeed.toList m none
    match shared with
    | some feeder =>
        let (m, chunk) ← m.cutSlice feeder peerId sizeHint now
        some (m, some chunk, none)
    | none =>
        let (m, c, mapNeeded) ← m.getAvailableChunk peerId now rand
        if c < m.map.length then
          let (m, chunk) ← (m.openChunk peerId c).cutSlice peerId peerId sizeHint now
          some (m, some chunk, some mapNeeded)
        else
          match failsafe with
          | some feeder =>
              let (m, chunk) ← m.cutSlice feeder peerId sizeHint now
              some (m, some chunk, some mapNeeded)
          | none => some (m, none, some mapNeeded)

/-- The first slice of a chunk, in offset order, that `peerId` may be asked for again. -/
def reAskable (peerId : PeerId) (now : Int) (info : ChunkDownloadInfo PeerId) :
    Option (Nat × SliceRequestInfo PeerId) :=
  info.slices.toList.find? fun (_, slice) =>
    decide (slice.requestTime + ftChunkmapMaxSliceReaskDelay < now) && decide (peerId ∉ slice.peers)

/-- Near the end of a transfer a pending slice is asked for again, from a peer it was not asked
from. The result is its offset and size. -/
def reAskPendingChunk (m : ChunkMap PeerId) (peerId : PeerId) (now : Int) :
    Option (ChunkMap PeerId × Option (Nat × Nat)) := do
  if ← m.scan (· == .outstanding) then
    some (m, none)
  else
    let found := m.slicesToDownload.toList.findSome? fun (n, info) =>
      (reAskable peerId now info).map fun (offset, slice) => (n, info, offset, slice)
    match found with
    | none => some (m, none)
    | some (n, info, offset, slice) =>
        let info := { info with
          slices := info.slices.insert offset
            { slice with requestTime := now, peers := insert peerId slice.peers } }
        some ({ m with slicesToDownload := m.slicesToDownload.insert n info },
          some (offset, slice.size))

/-! ### Dropping what peers do not send -/

/-- A chunk nobody sent data for goes back to outstanding, with its slices and its feed. -/
def dropChunk (m : ChunkMap PeerId) (n : Nat) (info : ChunkDownloadInfo PeerId) :
    Option (ChunkMap PeerId) :=
  if n < m.map.length then
    some { m with
      map := m.map.set n .outstanding
      totalDownloaded := sub 64 m.totalDownloaded (sub 32 (m.sizeOfChunk n) info.remains)
      activeChunksFeed := m.activeChunksFeed.filter fun _ chunk =>
        chunk.start != chunkmapFixedChunkSize * n
      slicesToDownload := m.slicesToDownload.erase n }
  else none

def inactive (info : ChunkDownloadInfo PeerId) (now : Int) : Bool :=
  decide (inactiveChunkTimeLapse < now - info.lastDataReceived)

/-- The loop over the table; the list collects the offsets of the slices dropped. -/
def dropInactive (now : Int) :
    List (Nat × ChunkDownloadInfo PeerId) → ChunkMap PeerId → List Nat →
      Option (ChunkMap PeerId × List Nat)
  | [], m, toRemove => some (m, toRemove)
  | (n, info) :: rest, m, toRemove =>
      if inactive info now then do
        let m ← m.dropChunk n info
        dropInactive now rest m (toRemove ++ info.slices.keys)
      else
        dropInactive now rest m toRemove

def removeInactiveChunks (m : ChunkMap PeerId) (now : Int) :
    Option (ChunkMap PeerId × List Nat) :=
  dropInactive now m.slicesToDownload.toList m []

/-! ### What the rest of the program asks -/

/-- The chunk numbers are `uint32_t`, and `_map` is read without a bound. -/
def hasChunkState (m : ChunkMap PeerId) (offset chunkSize : Nat) (state : ChunkState) :
    Option Bool :=
  let first := wrap 32 (offset / chunkmapFixedChunkSize)
  let stop := add 64 offset chunkSize
  let last := wrap 32 (stop / chunkmapFixedChunkSize)
  let last := if stop % chunkmapFixedChunkSize ≠ 0 then add 32 last 1 else last
  go first (last - first)
where
  go (i : Nat) : Nat → Option Bool
    | 0 => some true
    | fuel + 1 =>
        match m.map[i]? with
        | none => none
        | some found => if found ≠ state then some false else go (i + 1) fuel

def isChunkAvailable (m : ChunkMap PeerId) (offset chunkSize : Nat) : Option Bool :=
  m.hasChunkState offset chunkSize .done

def isChunkOutstanding (m : ChunkMap PeerId) (offset chunkSize : Nat) : Option Bool :=
  m.hasChunkState offset chunkSize .outstanding

end ChunkMap

end RetroShare.Ft
