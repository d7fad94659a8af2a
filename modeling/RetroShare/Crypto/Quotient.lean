import RetroShare.Foundation.Traced
import RetroShare.Crypto.Uint256

/-!
# Quotient and remainder

`quotient` keeps a multiplier beside the shifted divisor. The single bit it starts with is written into
the limb that the difference of the bit lengths names, and every write to a limb is noted; the program
is lost once it has written outside the eight limbs.
-/

namespace RetroShare.Crypto

open Uint256

/-- Overwrite one limb, named by an `int`. -/
def Uint256.setLimb (x : Uint256) (i : Int) (limb : UInt32) : Traced Int Uint256 :=
  .emit i (if 0 ≤ i ∧ i < 8 then some (x.modify i.toNat fun _ => limb) else none)

/-- `1u << count`; `negative` is what the machine makes of a count below zero. -/
def shiftOne (negative : Int → UInt32) (count : Int) : UInt32 :=
  if 0 ≤ count then 1 <<< UInt32.ofInt count else negative count

/-- The rounds of the loop in `quotient`. -/
def quotientFrom : Nat → Uint256 → Uint256 → Uint256 → Uint256 → Uint256 × Uint256
  | 0, q, r, _, _ => (q, r)
  | rounds + 1, q, r, d, m =>
      if !(r.lt d) then quotientFrom rounds (q.add m) (r.sub d) d.rshift m.rshift
      else quotientFrom rounds q r d.rshift m.rshift

/-- Quotient and remainder of `n` by `p`. Division of an `int` rounds towards zero. -/
def quotient (negative : Int → UInt32) (n p : Uint256) : Traced Int (Uint256 × Uint256) := do
  let bmax := n.maxNonZeroBit - p.maxNonZeroBit
  let m ← zero.setLimb (bmax.tdiv 32) (shiftOne negative (bmax.tmod 32))
  return quotientFrom (bmax + 1).toNat zero n (p.lshift (UInt32.ofInt bmax)) m

end RetroShare.Crypto
