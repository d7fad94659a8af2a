import RetroShare.Crypto.Uint256
import Mathlib.Data.Nat.Size

/-!
# What the 256-bit operations compute

One equation for each operation, on the number its operands stand for, and from them the correctness
of `remainder`.
-/

namespace RetroShare.Crypto

open Limbs

namespace Uint256

def modulus : Nat := 2 ^ 256

theorem radix_pow_eight : radix ^ 8 = modulus := by
  rw [radix, modulus, ← Nat.pow_mul]

theorem value_lt_modulus (x : Uint256) : x.value < modulus := by
  have hlt := value_lt x.b
  rwa [x.length_b, radix_pow_eight] at hlt

theorem value_add (x u : Uint256) : (x.add u).value = (x.value + u.value) % modulus := by
  have hlength : x.b.length = u.b.length := by rw [x.length_b, u.length_b]
  have hsum := value_addCarry hlength (show (0 : UInt64).toNat ≤ 1 from Nat.zero_le 1)
  rw [x.length_b, radix_pow_eight] at hsum
  exact hsum

theorem value_incr (x : Uint256) : x.increment.value = (x.value + 1) % modulus := by
  have hnext := value_increment x.b
  rw [x.length_b, radix_pow_eight] at hnext
  exact hnext

theorem value_compl (x : Uint256) : x.complement.value + x.value + 1 = modulus := by
  have hsum := Limbs.value_complement x.b
  rw [x.length_b, radix_pow_eight] at hsum
  exact hsum

theorem value_sub {x u : Uint256} (hle : u.value ≤ x.value) :
    (x.sub u).value = x.value - u.value := by
  have hx := x.value_lt_modulus
  have hsum := u.value_compl
  rw [sub, value_incr, value_add, Nat.mod_add_mod]
  calc
    (x.value + u.complement.value + 1) % modulus = (x.value - u.value + modulus) % modulus := by
      congr 1
      omega
    _ = x.value - u.value := by rw [Nat.add_mod_right, Nat.mod_eq_of_lt (by omega)]

theorem lt_eq (x u : Uint256) : x.lt u = decide (x.value < u.value) := by
  have hlength : x.b.reverse.length = u.b.reverse.length := by
    rw [List.length_reverse, List.length_reverse, x.length_b, u.length_b]
  have hbelow := below_eq hlength
  rw [List.reverse_reverse, List.reverse_reverse] at hbelow
  exact hbelow

theorem value_mul (x u : Uint256) : (x.mul u).value = x.value * u.value % modulus := by
  have hproduct := (product_spec (show x.b.length = u.b.length by rw [x.length_b, u.length_b])).2
  rw [x.length_b, radix_pow_eight] at hproduct
  exact hproduct

theorem value_rshift (x : Uint256) : x.rshift.value = x.value / 2 := (halve_spec x.b).1

theorem value_lshift (x : Uint256) (n : UInt32) :
    (x.lshift n).value = x.value * 2 ^ n.toNat % modulus := by
  have hp : (n >>> 5).toNat = n.toNat / 32 := by
    rw [UInt32.toNat_shiftRight, Nat.shiftRight_eq_div_pow]
    rfl
  have hu : (n &&& 0x1f).toNat = n.toNat % 32 := by
    rw [UInt32.toNat_and]
    exact Nat.and_two_pow_sub_one_eq_mod n.toNat 5
  have hpos : ∀ m : UInt32, m > 0 ↔ 0 < m.toNat := fun m => UInt32.lt_iff_toNat_lt
  let b := if n >>> 5 > 0 then shiftWords (n >>> 5).toNat x.b else x.b
  have hb : b.length = 8 ∧ Limbs.value b = x.value * radix ^ (n.toNat / 32) % modulus := by
    by_cases hwords : n >>> 5 > 0
    · simp only [b, if_pos hwords]
      refine ⟨by rw [length_shiftWords, x.length_b], ?_⟩
      rw [value_shiftWords, hp, x.length_b, radix_pow_eight]
      rfl
    · simp only [b, if_neg hwords]
      have hzero : n.toNat / 32 = 0 := by
        have := mt (hpos _).mpr hwords
        omega
      refine ⟨x.length_b, ?_⟩
      rw [hzero, Nat.pow_zero, Nat.mul_one, Nat.mod_eq_of_lt x.value_lt_modulus]
      rfl
  have hsplit : x.value * 2 ^ n.toNat =
      x.value * radix ^ (n.toNat / 32) * 2 ^ (n.toNat % 32) := by
    rw [Nat.mul_assoc, radix, ← Nat.pow_mul, ← Nat.pow_add, Nat.div_add_mod]
  change Limbs.value (if n &&& 0x1f > 0 then shiftBits (n &&& 0x1f) 0 b else b) = _
  by_cases hbits : n &&& 0x1f > 0
  · have hshift := value_shiftBits ((hpos _).mp hbits) (by rw [hu]; omega)
      (show (0 : UInt32).toNat < 2 ^ (n &&& 0x1f).toNat from Nat.two_pow_pos _) b
    rw [if_pos hbits, hshift, hb.1, hb.2, radix_pow_eight, hu, hsplit]
    change (_ + 0) % modulus = _
    rw [Nat.add_zero, Nat.mod_mul_mod]
  · have hzero : n.toNat % 32 = 0 := by
      have := mt (hpos _).mpr hbits
      omega
    rw [if_neg hbits, hb.2, hsplit, hzero, Nat.pow_zero, Nat.mul_one]

/-! ### The highest bit -/

theorem maxNonZeroOfHeightBits_bounds :
    ∀ n : Fin 256, (maxNonZeroOfHeightBits (UInt8.ofNat n) = -1 ∧ n = 0) ∨
      ∃ k : Fin 8, maxNonZeroOfHeightBits (UInt8.ofNat n) = k.val ∧ 2 ^ k.val ≤ n.val ∧
        n.val < 2 ^ (k.val + 1) := by
  decide +kernel

theorem size_eq {n k : Nat} (hlow : 2 ^ k ≤ n) (hhigh : n < 2 ^ (k + 1)) : n.size = k + 1 :=
  le_antisymm (Nat.size_le.mpr hhigh) (Nat.lt_size.mpr hlow)

theorem maxNonZeroOfHeightBits_eq (s : UInt8) :
    maxNonZeroOfHeightBits s + 1 = (s.toNat.size : Int) := by
  have hs : UInt8.ofNat s.toNat = s := UInt8.ofNat_toNat
  rcases maxNonZeroOfHeightBits_bounds ⟨s.toNat, s.toNat_lt⟩ with ⟨hnone, hzero⟩ |
    ⟨k, hsome, hlow, hhigh⟩
  · have hzero' : s.toNat = 0 := congrArg Fin.val hzero
    rw [show maxNonZeroOfHeightBits s = -1 from hs ▸ hnone, hzero', Nat.size_zero]
    rfl
  · rw [show maxNonZeroOfHeightBits s = k.val from hs ▸ hsome, size_eq hlow hhigh]
    rfl

/-- Bits below a non-zero quotient only move the highest bit up. -/
theorem size_div {n k : Nat} (hpos : 0 < n / 2 ^ k) : n.size = k + (n / 2 ^ k).size := by
  have hsize : 0 < (n / 2 ^ k).size := Nat.size_pos.mpr hpos
  have hlow : 2 ^ ((n / 2 ^ k).size - 1) ≤ n / 2 ^ k := Nat.lt_size.mp (by omega)
  have hhigh : n / 2 ^ k < 2 ^ (n / 2 ^ k).size := Nat.lt_size_self _
  rw [Nat.le_div_iff_mul_le (Nat.two_pow_pos k), ← Nat.pow_add] at hlow
  rw [Nat.div_lt_iff_lt_mul (Nat.two_pow_pos k), ← Nat.pow_add] at hhigh
  apply le_antisymm
  · rw [Nat.add_comm]
    exact Nat.size_le.mpr hhigh
  · have := Nat.lt_size.mpr hlow
    omega

theorem and_byte_mask (n k : Nat) : n &&& (255 * 2 ^ k) = n / 2 ^ k % 256 * 2 ^ k := by
  apply Nat.eq_of_testBit_eq
  intro i
  rw [Nat.testBit_and, Nat.testBit_mul_two_pow, Nat.testBit_mul_two_pow]
  by_cases hi : k ≤ i
  · rw [show (256 : Nat) = 2 ^ 8 from rfl, show (255 : Nat) = 2 ^ 8 - 1 from rfl,
      Nat.testBit_mod_two_pow, Nat.testBit_two_pow_sub_one, Nat.testBit_div_two_pow,
      Nat.sub_add_cancel hi]
    simp [hi, Bool.and_comm]
  · simp [hi]

/-- The byte that the masks of `max_non_zero_bit` single out. -/
theorem byte_size (limb mask : UInt32) (k : Nat) (hmask : mask.toNat = 255 * 2 ^ k) (hk : k < 32)
    (hlimb : limb.toNat < 2 ^ (k + 8)) :
    (limb &&& mask ≠ 0 →
      (k : Int) + maxNonZeroOfHeightBits (limb >>> UInt32.ofNat k).toUInt8 + 1 = limb.toNat.size) ∧
      (¬ limb &&& mask ≠ 0 → limb.toNat < 2 ^ k) := by
  have hquotient : limb.toNat / 2 ^ k < 256 := by
    rw [Nat.div_lt_iff_lt_mul (Nat.two_pow_pos k), show 256 = 2 ^ 8 from rfl, ← Nat.pow_add,
      Nat.add_comm]
    exact hlimb
  have hand : (limb &&& mask).toNat = limb.toNat / 2 ^ k * 2 ^ k := by
    rw [UInt32.toNat_and, hmask, and_byte_mask, Nat.mod_eq_of_lt hquotient]
  have hzero : limb &&& mask = 0 ↔ limb.toNat / 2 ^ k = 0 := by
    rw [← UInt32.toNat_inj, hand]
    exact Nat.mul_eq_zero.trans (or_iff_left (Nat.two_pow_pos k).ne')
  have hbyte : (limb >>> UInt32.ofNat k).toUInt8.toNat = limb.toNat / 2 ^ k := by
    rw [UInt32.toNat_toUInt8, UInt32.toNat_shiftRight, UInt32.toNat_ofNat',
      Nat.mod_eq_of_lt (show k < 2 ^ 32 by omega), Nat.mod_eq_of_lt hk, Nat.shiftRight_eq_div_pow, Nat.mod_eq_of_lt hquotient]
  constructor
  · intro hset
    have hsize := size_div (Nat.pos_of_ne_zero (mt hzero.mpr hset))
    have hheight := maxNonZeroOfHeightBits_eq (limb >>> UInt32.ofNat k).toUInt8
    rw [hbyte] at hheight
    omega
  · intro hclear
    exact (Nat.div_eq_zero_iff_lt (Nat.two_pow_pos k)).mp (hzero.mp (not_not.mp hclear))

theorem maxNonZeroBitFrom_eq (limbs : List UInt32) :
    maxNonZeroBitFrom limbs + 1 = ((Limbs.value limbs.reverse).size : Int) := by
  induction limbs with
  | nil => rfl
  | cons limb rest ih =>
      have hvalue : Limbs.value (limb :: rest).reverse =
          Limbs.value rest.reverse + radix ^ rest.length * limb.toNat := by
        rw [List.reverse_cons, value_append, List.length_reverse]
        simp
      have hrest := value_lt rest.reverse
      rw [List.length_reverse] at hrest
      rw [maxNonZeroBitFrom]
      by_cases hlimb : limb = 0
      · rw [if_neg (not_not.mpr hlimb), ih, hvalue, hlimb]
        simp
      · have hpos : 0 < limb.toNat := 
          Nat.pos_of_ne_zero fun h => hlimb (UInt32.toNat_inj.mp h)
        have hpow : radix ^ rest.length = 2 ^ (32 * rest.length) := by rw [radix, ← Nat.pow_mul]
        have hdiv : Limbs.value (limb :: rest).reverse / 2 ^ (32 * rest.length) = limb.toNat := by
          rw [hvalue, ← hpow, Nat.add_mul_div_left _ _ (Nat.pow_pos radix_pos),
            Nat.div_eq_of_lt hrest, Nat.zero_add]
        have hsize := size_div (hdiv.symm ▸ hpos)
        rw [hdiv] at hsize
        obtain ⟨hset₃, hclear₃⟩ := byte_size limb 0xff000000 24 rfl (by omega) limb.toNat_lt
        rw [if_pos hlimb, hsize]
        by_cases htop : limb &&& 0xff000000 ≠ 0
        · have hheight := hset₃ htop
          rw [if_pos htop]
          change _ + maxNonZeroOfHeightBits (limb >>> 24).toUInt8 + 1 = _ at hheight
          push_cast at hheight ⊢
          omega
        obtain ⟨hset₂, hclear₂⟩ := byte_size limb 0x00ff0000 16 rfl (by omega) (hclear₃ htop)
        rw [if_neg htop]
        by_cases hupper : limb &&& 0x00ff0000 ≠ 0
        · have hheight := hset₂ hupper
          rw [if_pos hupper]
          change _ + maxNonZeroOfHeightBits (limb >>> 16).toUInt8 + 1 = _ at hheight
          push_cast at hheight ⊢
          omega
        obtain ⟨hset₁, hclear₁⟩ := byte_size limb 0x0000ff00 8 rfl (by omega) (hclear₂ hupper)
        rw [if_neg hupper]
        by_cases hlower : limb &&& 0x0000ff00 ≠ 0
        · have hheight := hset₁ hlower
          rw [if_pos hlower]
          change _ + maxNonZeroOfHeightBits (limb >>> 8).toUInt8 + 1 = _ at hheight
          push_cast at hheight ⊢
          omega
        have hlast := maxNonZeroOfHeightBits_eq limb.toUInt8
        rw [UInt32.toNat_toUInt8, Nat.mod_eq_of_lt (hclear₁ hlower)] at hlast
        rw [if_neg hlower]
        push_cast
        omega

theorem maxNonZeroBit_eq (x : Uint256) : x.maxNonZeroBit + 1 = (x.value.size : Int) := by
  have htop := maxNonZeroBitFrom_eq x.b.reverse
  rwa [List.reverse_reverse] at htop

end Uint256

open Uint256

/-! ### Remainder -/

/-- One round of the loop: `r` comes below `d` and keeps its remainder by any divisor of `d`. -/
theorem remainder_round {r d : Uint256} {p : Nat} (hdvd : p ∣ d.value)
    (hr : r.value < 2 * d.value) :
    let r' := if !(r.lt d) then r.sub d else r
    r'.value < d.value ∧ r'.value % p = r.value % p := by
  by_cases hlt : r.value < d.value
  · have hcond : (!(r.lt d)) = false := by rw [lt_eq, decide_eq_true hlt, Bool.not_true]
    simp only [hcond, Bool.false_eq_true, if_false]
    exact ⟨hlt, trivial⟩
  · have hcond : (!(r.lt d)) = true := by rw [lt_eq, decide_eq_false hlt, Bool.not_false]
    have hle : d.value ≤ r.value := Nat.le_of_not_lt hlt
    simp only [hcond, if_true, value_sub hle]
    obtain ⟨k, hk⟩ := hdvd
    refine ⟨by omega, ?_⟩
    rw [hk]
    exact Nat.sub_mul_mod (hk ▸ hle)

theorem value_remainderFrom (p : Nat) :
    ∀ (shift : Nat) (r d : Uint256), d.value = p * 2 ^ shift → r.value < 2 * d.value →
      (remainderFrom (shift + 1) r d).value = r.value % p := by
  intro shift
  induction shift with
  | zero =>
      intro r d hd hr
      obtain ⟨hlt, hmod⟩ := remainder_round (p := p) (hd ▸ dvd_mul_right p _) hr
      rw [hd, Nat.pow_zero, Nat.mul_one] at hlt
      rw [remainderFrom, remainderFrom, ← hmod, Nat.mod_eq_of_lt hlt]
  | succ shift ih =>
      intro r d hd hr
      obtain ⟨hlt, hmod⟩ := remainder_round (p := p) (hd ▸ dvd_mul_right p _) hr
      have hhalf : d.value = 2 * (p * 2 ^ shift) := by rw [hd, Nat.pow_succ]; ring
      have hnext : d.rshift.value = p * 2 ^ shift := by
        rw [value_rshift, hhalf, Nat.mul_div_cancel_left _ (by omega)]
      rw [remainderFrom, ih _ _ hnext (by rw [hnext, ← hhalf]; exact hlt), hmod]

/-- The divisor that the loop starts from does not overflow. -/
theorem value_lshift_distance {n p : Uint256} {shift : Nat}
    (hshift : n.maxNonZeroBit - p.maxNonZeroBit = shift) :
    (p.lshift (UInt32.ofInt (n.maxNonZeroBit - p.maxNonZeroBit))).value =
      p.value * 2 ^ shift := by
  have hn := maxNonZeroBit_eq n
  have hp := maxNonZeroBit_eq p
  have hsize : p.value.size + shift = n.value.size := by omega
  have hsmall : n.value.size ≤ 256 := Nat.size_le.mpr n.value_lt_modulus
  have hword : (UInt32.ofInt (n.maxNonZeroBit - p.maxNonZeroBit)).toNat = shift := by
    rw [hshift]
    change (UInt32.ofNat _).toNat = _
    rw [UInt32.toNat_ofNat']
    omega
  have hroom : p.value * 2 ^ shift < modulus := by
    calc
      p.value * 2 ^ shift < 2 ^ p.value.size * 2 ^ shift :=
        Nat.mul_lt_mul_of_pos_right (Nat.lt_size_self _) (Nat.two_pow_pos _)
      _ = 2 ^ n.value.size := by rw [← Nat.pow_add, hsize]
      _ ≤ modulus := Nat.pow_le_pow_right (by omega) hsmall
  rw [value_lshift, hword, Nat.mod_eq_of_lt hroom]

/-- A number of `shift` more bits is less than twice the divisor shifted that far. -/
theorem lt_double_shift {n p shift : Nat} (hp : 0 < p) (hshift : p.size + shift = n.size) :
    n < 2 * (p * 2 ^ shift) := by
  have hsize : 0 < p.size := Nat.size_pos.mpr hp
  have hlow : 2 ^ (p.size - 1) ≤ p := Nat.lt_size.mp (by omega)
  calc
    n < 2 ^ n.size := Nat.lt_size_self _
    _ = 2 * (2 ^ (p.size - 1) * 2 ^ shift) := by
      rw [← Nat.pow_add, ← Nat.pow_succ']
      congr 1
      omega
    _ ≤ 2 * (p * 2 ^ shift) := by gcongr

theorem lt_of_size_lt {n p : Nat} (hsize : n.size < p.size) : n < p :=
  Nat.lt_of_lt_of_le (Nat.lt_size_self n) (Nat.lt_size.mp hsize)

theorem value_remainder (n p : Uint256) (hp : 0 < p.value) :
    (remainder n p).value = n.value % p.value := by
  have hntop := maxNonZeroBit_eq n
  have hptop := maxNonZeroBit_eq p
  unfold remainder
  by_cases hneg : n.value.size < p.value.size
  · have hrounds : (n.maxNonZeroBit - p.maxNonZeroBit + 1).toNat = 0 := by omega
    have hlt : n.value < p.value := lt_of_size_lt hneg
    simp only [hrounds, remainderFrom]
    exact (Nat.mod_eq_of_lt hlt).symm
  · obtain ⟨shift, hshift⟩ := Nat.exists_eq_add_of_le (Nat.le_of_not_lt hneg)
    have hdistance : n.maxNonZeroBit - p.maxNonZeroBit = shift := by omega
    have hd := value_lshift_distance hdistance
    have hrounds : (n.maxNonZeroBit - p.maxNonZeroBit + 1).toNat = shift + 1 := by omega
    simp only [hrounds]
    apply value_remainderFrom p.value shift _ _ hd
    rw [hd]
    exact lt_double_shift hp (by omega)

end RetroShare.Crypto
