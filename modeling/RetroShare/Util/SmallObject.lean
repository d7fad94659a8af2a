import RetroShare.Foundation.Bytes
import RetroShare.Foundation.OrderedMap
import RetroShare.Foundation.Transition
import RetroShare.Foundation.Word
import RetroShare.Util.RsMemory

/-!
# Small objects

`operator new` for small objects: chunks of 255 blocks of one size, where the first byte of a free block
is the number of the next one. The arrays behind the chunks come from the system, which says where.
`none` is a failed assertion, or an access to memory that is not there.
-/

namespace RetroShare.Util

open Bytes

def maxSmallObjectSize : Nat := 128

def blocksPerChunk : UInt8 := 255

/-! ### Memory from the system -/

/-- The arrays that were obtained and not given back, by address, with their sizes. -/
structure Heap where
  memory : Memory
  arrays : OrderedMap Nat Nat

namespace Heap

def Owns (h : Heap) (address : Nat) : Prop :=
  ∃ array ∈ h.arrays.toList, array.1 ≤ address ∧ address < array.1 + array.2

instance (h : Heap) (address : Nat) : Decidable (h.Owns address) :=
  inferInstanceAs (Decidable (∃ array ∈ h.arrays.toList, _))

def read (h : Heap) (address : Nat) : Option UInt8 :=
  if h.Owns address then some (h.memory address) else none

def write (h : Heap) (address : Nat) (byte : UInt8) : Option Heap :=
  if h.Owns address then some { h with memory := Function.update h.memory address byte } else none

def obtain (h : Heap) (address size : Nat) : Heap :=
  { h with arrays := h.arrays.insert address size }

def release (h : Heap) (address : Nat) : Option Heap :=
  if address ∈ h.arrays then some { h with arrays := h.arrays.erase address } else none

end Heap

/-! ### Chunks -/

structure Chunk where
  data : Nat
  firstAvailableBlock : UInt8
  blocksAvailable : UInt8

namespace Chunk

def init (h : Heap) (address blockSize : Nat) (blocks : UInt8) : Option (Chunk × Heap) := do
  let h ← (List.range blocks.toNat).foldlM
    (fun h i => h.write (address + i * blockSize) (UInt8.ofNat (i + 1)))
    (h.obtain address (blockSize * blocks.toNat))
  pure (⟨address, 0, blocks⟩, h)

/-- `NULL` when no block is left. -/
def allocate (c : Chunk) (h : Heap) (blockSize : Nat) : Option (Option Nat × Chunk) :=
  if c.blocksAvailable = 0 then some (none, c)
  else if 2 ≤ blockSize then do
    let result := c.data + c.firstAvailableBlock.toNat * blockSize
    let next ← h.read result
    pure (some result,
      { c with firstAvailableBlock := next, blocksAvailable := c.blocksAvailable - 1 })
  else none

/-- The number of the block has to fit into a byte. -/
def deallocate (c : Chunk) (h : Heap) (p blockSize : Nat) : Option (Chunk × Heap) :=
  if c.data ≤ p ∧ (p - c.data) % blockSize = 0 then do
    let h ← h.write p c.firstAvailableBlock
    let block := UInt8.ofNat ((p - c.data) / blockSize)
    if block.toNat = (p - c.data) / blockSize then
      pure ({ c with firstAvailableBlock := block, blocksAvailable := c.blocksAvailable + 1 }, h)
    else none
  else none

end Chunk

/-! ### Blocks of one size -/

/-- The two indices are those of the chunk of the last call, or -1. -/
structure FixedAllocator where
  blockSize : Nat
  numBlocks : UInt8
  chunks : List Chunk
  allocChunk : Int
  deallocChunk : Int

namespace FixedAllocator

def new (bytes : Nat) : FixedAllocator := ⟨bytes, blocksPerChunk, [], -1, -1⟩

def chunkOwnsPointer (a : FixedAllocator) (c : Chunk) (p : Nat) : Bool :=
  c.data ≤ p ∧ (p - c.data) / a.blockSize < a.numBlocks.toNat

def chunkAt (a : FixedAllocator) (index : Int) : Option Chunk :=
  if index < 0 then none else a.chunks[index.toNat]?

def setChunk (a : FixedAllocator) (index : Int) (c : Chunk) : FixedAllocator :=
  { a with chunks := a.chunks.set index.toNat c }

/-- The chunk of the last allocation has a block left. -/
def lastHasRoom (a : FixedAllocator) : Option Bool :=
  if a.allocChunk < 0 then some false
  else (a.chunkAt a.allocChunk).map (·.blocksAvailable ≠ 0)

/-- Some chunk with a block left becomes the one to allocate from, at worst a new one. -/
def findRoom (a : FixedAllocator) (h : Heap) (fresh : Nat) : Option (FixedAllocator × Heap) :=
  match a.chunks.findIdx? (0 < ·.blocksAvailable) with
  | some i => some ({ a with allocChunk := i }, h)
  | none => do
      let (c, h) ← Chunk.init h fresh a.blockSize a.numBlocks
      pure ({ a with
        chunks := a.chunks ++ [c]
        allocChunk := a.chunks.length
        deallocChunk := a.chunks.length }, h)

def room (a : FixedAllocator) (h : Heap) (fresh : Nat) : Option (FixedAllocator × Heap) := do
  if ← a.lastHasRoom then some (a, h) else a.findRoom h fresh

def allocate (a : FixedAllocator) (h : Heap) (fresh : Nat) :
    Option (Option Nat × FixedAllocator × Heap) := do
  let (a, h) ← a.room h fresh
  let c ← a.chunkAt a.allocChunk
  if c.blocksAvailable = 0 then none else do
    let (result, c) ← c.allocate h a.blockSize
    pure (result, a.setChunk a.allocChunk c, h)

/-- The chunk of the last deallocation, if the block is in it. -/
def lastOwns (a : FixedAllocator) (p : Nat) : Option Bool :=
  if a.deallocChunk < 0 then some false
  else (a.chunkAt a.deallocChunk).map (a.chunkOwnsPointer · p)

def findOwner (a : FixedAllocator) (p : Nat) : Int :=
  match a.chunks.findIdx? (a.chunkOwnsPointer · p) with
  | some i => i
  | none => -1

def owner (a : FixedAllocator) (p : Nat) : Option Int := do
  if ← a.lastOwns p then some a.deallocChunk else some (a.findOwner p)

/-- A chunk that has all its blocks back is deleted, and the last one takes its place. -/
def dropChunk (a : FixedAllocator) (h : Heap) (index : Int) (c : Chunk) :
    Option (FixedAllocator × Heap) := do
  let h ← h.release c.data
  let back ← a.chunks.getLast?
  let size : Int := a.chunks.length
  let alloc := if a.allocChunk = index then -1 else a.allocChunk
  pure ({ a with
    chunks := (a.chunks.set index.toNat back).dropLast
    allocChunk := if alloc = size - 1 then index else alloc
    deallocChunk := -1 }, h)

def deallocate (a : FixedAllocator) (h : Heap) (p : Nat) : Option (FixedAllocator × Heap) := do
  let index ← a.owner p
  let c ← a.chunkAt index
  let (c, h) ← c.deallocate h p a.blockSize
  let a := { a with deallocChunk := index }.setChunk index c
  if c.blocksAvailable = blocksPerChunk then a.dropChunk h index c else pure (a, h)

def currentSize (a : FixedAllocator) : Nat :=
  a.chunks.foldl (fun res c =>
    Word.add 32 res ((a.numBlocks.toNat - c.blocksAvailable.toNat) * a.blockSize)) 0

end FixedAllocator

/-! ### Objects of all sizes -/

/-- The allocators of the last two calls are named by their sizes: they stay in the pool. -/
structure SmallObjectAllocator where
  active : Bool
  pool : OrderedMap Nat FixedAllocator
  lastAlloc : Option Nat
  lastDealloc : Option Nat
  maxObjectSize : Nat

namespace SmallObjectAllocator

def new (maxObjectSize : Nat) : SmallObjectAllocator := ⟨true, ∅, none, none, maxObjectSize⟩

/-- The last allocator, if it is one for this size. -/
def lastFits (s : SmallObjectAllocator) (last : Option Nat) (bytes : Nat) : Option Bool :=
  match last with
  | none => some false
  | some key => (s.pool[key]?).map (·.blockSize = bytes)

/-- The pool with an allocator for this size. -/
def withAllocator (s : SmallObjectAllocator) (bytes : Nat) : OrderedMap Nat FixedAllocator :=
  if bytes ∈ s.pool then s.pool else s.pool.insert bytes (.new bytes)

def allocate (s : SmallObjectAllocator) (h : Heap) (bytes fresh : Nat) :
    Option (Option Nat × SmallObjectAllocator × Heap) :=
  if s.maxObjectSize < bytes then
    if rsMalloc bytes then some (some fresh, s, h.obtain fresh bytes) else some (none, s, h)
  else do
    let fits ← s.lastFits s.lastAlloc bytes
    let key ← if fits then s.lastAlloc else some bytes
    let s := if fits then s else { s with pool := s.withAllocator bytes, lastAlloc := some bytes }
    let a ← s.pool[key]?
    let (result, a, h) ← a.allocate h fresh
    pure (result, { s with pool := s.pool.insert key a }, h)

def deallocate (s : SmallObjectAllocator) (h : Heap) (p bytes : Nat) :
    Option (SmallObjectAllocator × Heap) :=
  if s.maxObjectSize < bytes then (h.release p).map fun h => (s, h)
  else do
    let fits ← s.lastFits s.lastDealloc bytes
    let key ← if fits then s.lastDealloc else some bytes
    let s := if fits then s else { s with pool := s.withAllocator bytes, lastDealloc := some bytes }
    let a ← s.pool[key]?
    let (a, h) ← a.deallocate h p
    pure ({ s with pool := s.pool.insert key a }, h)

/-- What the destructor reports. -/
def stillAllocated (s : SmallObjectAllocator) : Nat :=
  s.pool.toList.foldl (fun still entry => Word.add 32 still entry.2.currentSize) 0

end SmallObjectAllocator

/-! ### Runs -/

/-- The objects are those that `operator new` returned and `operator delete` did not get, by address,
with their sizes. -/
structure SmallObjects where
  allocator : SmallObjectAllocator
  heap : Heap
  objects : OrderedMap Nat Nat

namespace SmallObjects

/-- `fresh` is where the system puts an array, if it is asked for one. -/
inductive Op
  | new (size fresh : Nat)
  | delete (p size : Nat)
  | write (address : Nat) (byte : UInt8)
  | quit

def start (memory : Memory) : SmallObjects := ⟨.new maxSmallObjectSize, ⟨memory, ∅⟩, ∅⟩

/-- After the end of the allocator the system is asked for every object. -/
def operatorNew (s : SmallObjects) (size fresh : Nat) :
    Option (Option Nat × SmallObjectAllocator × Heap) :=
  if s.allocator.active then s.allocator.allocate s.heap size fresh
  else some (some fresh, s.allocator, s.heap.obtain fresh size)

def operatorDelete (s : SmallObjects) (p size : Nat) : Option (SmallObjectAllocator × Heap) :=
  if s.allocator.active then s.allocator.deallocate s.heap p size else some (s.allocator, s.heap)

def step (s : SmallObjects) : Op → Option SmallObjects
  | .new size fresh => do
      let (p, allocator, heap) ← s.operatorNew size fresh
      let objects := p.elim s.objects fun p => s.objects.insert p size
      pure ⟨allocator, heap, objects⟩
  | .delete p size => do
      let (allocator, heap) ← s.operatorDelete p size
      pure ⟨allocator, heap, s.objects.erase p⟩
  | .write address byte =>
      let memory := Function.update s.heap.memory address byte
      some { s with heap := { s.heap with memory := memory } }
  | .quit => some { s with allocator := { s.allocator with active := false } }

end SmallObjects

end RetroShare.Util
