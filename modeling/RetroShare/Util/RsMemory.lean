import RetroShare.Foundation.Bytes
import RetroShare.Foundation.Traced

/-!
# Memory that is checked

`rs_malloc`, and a buffer of which a program reads pieces: each read is noted, and a run ends where it
leaves the buffer.
-/

namespace RetroShare.Util

open Bytes

/-- `rs_malloc` gives out neither nothing nor more than a gigabyte. -/
def rsMalloc (size : Nat) : Bool := size ≠ 0 ∧ size ≤ 1024 * 1024 * 1024

/-- A piece of the input, and a number of bytes written to a buffer of this capacity. -/
inductive BufferAccess
  | read (start count : Nat)
  | write (capacity count : Nat)
  deriving DecidableEq

/-- The piece is part of an input of this length, and what is written has room. -/
def BufferAccess.Inside (length : Nat) : BufferAccess → Prop
  | .read start count => start + count ≤ length
  | .write capacity count => count ≤ capacity

/-- The `count` bytes from `start` on, if they are all there. -/
def readInput (input : Memory) (length start count : Nat) : Traced BufferAccess (List UInt8) :=
  .emit (.read start count)
    (if start + count ≤ length then some (slice input start count) else none)

def writeBuffer (capacity : Nat) (bytes : List UInt8) : Traced BufferAccess Unit :=
  .emit (.write capacity bytes.length) (if bytes.length ≤ capacity then some () else none)

variable {input : Memory} {length : Nat}

@[simp]
theorem ends_readInput {start count : Nat} {bytes : List UInt8} :
    (readInput input length start count).Ends (BufferAccess.Inside length) bytes ↔
      start + count ≤ length ∧ slice input start count = bytes := by
  rw [readInput, Traced.ends_emit, BufferAccess.Inside]
  refine and_congr_right fun hinside => ?_
  rw [if_pos hinside, Option.some.injEq]

@[simp]
theorem ends_writeBuffer {capacity : Nat} {bytes : List UInt8} :
    (writeBuffer capacity bytes).Ends (BufferAccess.Inside length) () ↔ bytes.length ≤ capacity := by
  rw [writeBuffer, Traced.ends_emit, BufferAccess.Inside]
  refine and_iff_left_of_imp fun hroom => ?_
  rw [if_pos hroom]

end RetroShare.Util
