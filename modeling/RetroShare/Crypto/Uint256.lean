import RetroShare.Foundation.Limbs

/-!
# 256-bit integers

`uint256_32`, the integer type of the Poly1305 code: eight limbs with the arithmetic written out
limb by limb, and the `remainder` by shifting and subtracting.
-/

namespace RetroShare.Crypto

open Limbs

structure Uint256 where
  b : List UInt32
  length_b : b.length = 8

namespace Uint256

def ofLimbs (b7 b6 b5 b4 b3 b2 b1 b0 : UInt32) : Uint256 := ⟨[b0, b1, b2, b3, b4, b5, b6, b7], rfl⟩

def zero : Uint256 := ofLimbs 0 0 0 0 0 0 0 0

def value (x : Uint256) : Nat := Limbs.value x.b

def modify (x : Uint256) (i : Nat) (f : UInt32 → UInt32) : Uint256 :=
  ⟨x.b.modify i f, by rw [List.length_modify, x.length_b]⟩

/-- `operator +=` -/
def add (x u : Uint256) : Uint256 :=
  ⟨addCarry 0 x.b u.b, by rw [length_addCarry (by rw [x.length_b, u.length_b]), x.length_b]⟩

/-- `operator ++` -/
def increment (x : Uint256) : Uint256 :=
  ⟨Limbs.increment x.b, by rw [length_increment, x.length_b]⟩

/-- `operator ~` -/
def complement (x : Uint256) : Uint256 :=
  ⟨Limbs.complement x.b, by rw [Limbs.complement, List.length_map, x.length_b]⟩

/-- `operator -=` -/
def sub (x u : Uint256) : Uint256 := (x.add u.complement).increment

/-- `operator <` -/
def lt (x u : Uint256) : Bool := below x.b.reverse u.b.reverse

def poly1305clamp (x : Uint256) : Uint256 :=
  (((x.modify 0 (· &&& 0x0fffffff)).modify 1 (· &&& 0x0ffffffc)).modify 2 (· &&& 0x0ffffffc)).modify
    3 (· &&& 0x0ffffffc)

/-- `operator *=` -/
def mul (x u : Uint256) : Uint256 :=
  ⟨product x.b u.b, by rw [(product_spec (by rw [x.length_b, u.length_b])).1, x.length_b]⟩

def maxNonZeroOfHeightBits (s : UInt8) : Int :=
  match [7, 6, 5, 4, 3, 2, 1, 0].find? fun i : Nat => s &&& (1 <<< UInt8.ofNat i) ≠ 0 with
  | some i => i
  | none => -1

/-- The loop of `max_non_zero_bit` from the most significant limb, over the reversed limbs. -/
def maxNonZeroBitFrom : List UInt32 → Int
  | [] => -1
  | limb :: rest =>
      if limb ≠ 0 then
        if limb &&& 0xff000000 ≠ 0 then
          32 * rest.length + 3 * 8 + maxNonZeroOfHeightBits (limb >>> 24).toUInt8
        else if limb &&& 0x00ff0000 ≠ 0 then
          32 * rest.length + 2 * 8 + maxNonZeroOfHeightBits (limb >>> 16).toUInt8
        else if limb &&& 0x0000ff00 ≠ 0 then
          32 * rest.length + 1 * 8 + maxNonZeroOfHeightBits (limb >>> 8).toUInt8
        else
          32 * rest.length + 0 * 8 + maxNonZeroOfHeightBits limb.toUInt8
      else maxNonZeroBitFrom rest

def maxNonZeroBit (x : Uint256) : Int := maxNonZeroBitFrom x.b.reverse

def lshift (x : Uint256) (n : UInt32) : Uint256 :=
  let p := n >>> 5
  let u := n &&& 0x1f
  let b := if p > 0 then shiftWords p.toNat x.b else x.b
  have hb : b.length = 8 := by
    simp only [b]
    split
    · rw [length_shiftWords, x.length_b]
    · exact x.length_b
  ⟨if u > 0 then shiftBits u 0 b else b, by
    split
    · rw [length_shiftBits, hb]
    · exact hb⟩

def rshift (x : Uint256) : Uint256 := ⟨(halve x.b).1, by rw [length_halve, x.length_b]⟩

end Uint256

open Uint256

/-- The rounds of the loop in `remainder`. -/
def remainderFrom : Nat → Uint256 → Uint256 → Uint256
  | 0, r, _ => r
  | rounds + 1, r, d => remainderFrom rounds (if !(r.lt d) then r.sub d else r) d.rshift

/-- A negative distance goes to `lshift` as the unsigned number it becomes. -/
def remainder (n p : Uint256) : Uint256 :=
  let bmax := n.maxNonZeroBit - p.maxNonZeroBit
  remainderFrom (bmax + 1).toNat n (p.lshift (UInt32.ofInt bmax))

end RetroShare.Crypto
