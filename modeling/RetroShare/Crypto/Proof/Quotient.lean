import RetroShare.Crypto.Quotient
import RetroShare.Crypto.Proof.Uint256

/-!
# Division

Each round keeps `n = q * p + r`, and brings `r` below the divisor as it is shifted so far. When `n` has
fewer bits than `p` there is no round, and the result is right as well; but then the limb of the first
bit of the multiplier has a negative number from a difference of 32 bits on.
-/

namespace RetroShare.Crypto

open Limbs Uint256

/-! ### The multiplier -/

/-- One limb among zeros. -/
theorem value_modify_replicate (limb : UInt32) :
    ∀ {i n : Nat}, i < n →
      Limbs.value ((List.replicate n 0).modify i fun _ => limb) = limb.toNat * radix ^ i := by
  intro i
  induction i with
  | zero =>
      intro n hi
      obtain ⟨n, rfl⟩ := Nat.exists_eq_succ_of_ne_zero (Nat.pos_iff_ne_zero.mp hi)
      rw [List.replicate_succ, List.modify_zero_cons, value_cons, value_replicate_zero]
      simp
  | succ i ih =>
      intro n hi
      obtain ⟨n, rfl⟩ := Nat.exists_eq_succ_of_ne_zero (by omega : n ≠ 0)
      rw [List.replicate_succ, List.modify_succ_cons, value_cons, ih (Nat.lt_of_succ_lt_succ hi)]
      change 0 + _ = _
      ring

theorem toNat_shiftOne (negative : Int → UInt32) {count : Nat} (hcount : count < 32) :
    (shiftOne negative count).toNat = 2 ^ count := by
  have hword : (UInt32.ofInt count).toNat = count := by
    change (UInt32.ofNat _).toNat = _
    rw [UInt32.toNat_ofNat']
    omega
  rw [shiftOne, if_pos (Int.natCast_nonneg count), UInt32.toNat_shiftLeft, hword,
    Nat.mod_eq_of_lt hcount, Nat.shiftLeft_eq, UInt32.toNat_one, Nat.one_mul]
  exact Nat.mod_eq_of_lt (Nat.pow_lt_pow_right (by decide) hcount)

/-- The bit of a distance that is not negative. -/
theorem setLimb_distance (negative : Int → UInt32) {shift : Nat} (hshift : shift < 256) :
    ∃ m : Uint256, m.value = 2 ^ shift ∧
      zero.setLimb ((shift : Int).tdiv 32) (shiftOne negative ((shift : Int).tmod 32)) =
        .emit ((shift : Int) / 32) (some m) := by
  have hdiv : (shift : Int).tdiv 32 = (shift / 32 : Nat) := by
    rw [Int.tdiv_eq_ediv_of_nonneg (Int.natCast_nonneg shift)]
    rfl
  have hmod : (shift : Int).tmod 32 = (shift % 32 : Nat) := by
    rw [Int.tmod_eq_emod_of_nonneg (Int.natCast_nonneg shift)]
    rfl
  have hlimb : shift / 32 < 8 := by omega
  refine ⟨zero.modify (shift / 32) fun _ => shiftOne negative (shift % 32 : Nat), ?_, ?_⟩
  · calc
      _ = (shiftOne negative (shift % 32 : Nat)).toNat * radix ^ (shift / 32) :=
        value_modify_replicate _ hlimb
      _ = 2 ^ (shift % 32 + 32 * (shift / 32)) := by
        rw [toNat_shiftOne negative (Nat.mod_lt _ (by decide)), radix, ← Nat.pow_mul, Nat.pow_add]
      _ = 2 ^ shift := by rw [Nat.mod_add_div]
  · rw [setLimb, hdiv, hmod, if_pos ⟨Int.natCast_nonneg _, by omega⟩]
    rfl

/-! ### The rounds -/

section Rounds

variable {n p q r d m : Uint256} {shift : Nat}

/-- What holds before the round that is done with the divisor shifted by `shift`. -/
structure Rounds (n p : Uint256) (shift : Nat) (q r d m : Uint256) : Prop where
  equation : n.value = q.value * p.value + r.value
  divisor : d.value = p.value * 2 ^ shift
  multiplier : m.value = 2 ^ shift
  small : r.value < 2 * d.value

/-- **One round.** -/
theorem Rounds.round (hp : 0 < p.value) (h : Rounds n p shift q r d m) :
    let q' := if !(r.lt d) then q.add m else q
    let r' := if !(r.lt d) then r.sub d else r
    n.value = q'.value * p.value + r'.value ∧ r'.value < d.value := by
  by_cases hlt : r.value < d.value
  · have hcond : (!(r.lt d)) = false := by rw [lt_eq, decide_eq_true hlt, Bool.not_true]
    simp only [hcond, Bool.false_eq_true, if_false]
    exact ⟨h.equation, hlt⟩
  · have hcond : (!(r.lt d)) = true := by rw [lt_eq, decide_eq_false hlt, Bool.not_false]
    have hle : d.value ≤ r.value := Nat.le_of_not_lt hlt
    have hsmall := h.small
    have hnew : n.value = (q.value + m.value) * p.value + (r.value - d.value) := by
      calc
        n.value = q.value * p.value + r.value := h.equation
        _ = q.value * p.value + d.value + (r.value - d.value) := by omega
        _ = (q.value + m.value) * p.value + (r.value - d.value) := by
          rw [h.divisor, h.multiplier]
          ring
    have hroom : q.value + m.value < modulus := by
      calc
        q.value + m.value ≤ (q.value + m.value) * p.value := Nat.le_mul_of_pos_right _ hp
        _ ≤ n.value := hnew ▸ Nat.le_add_right _ _
        _ < modulus := n.value_lt_modulus
    simp only [hcond, if_true, value_sub hle, value_add, Nat.mod_eq_of_lt hroom]
    exact ⟨hnew, by omega⟩

theorem quotientFrom_succ (rounds : Nat) (q r d m : Uint256) :
    quotientFrom (rounds + 1) q r d m =
      quotientFrom rounds (if !(r.lt d) then q.add m else q) (if !(r.lt d) then r.sub d else r)
        d.rshift m.rshift := by
  rw [quotientFrom]
  split <;> rfl

/-- **All rounds.** -/
theorem Rounds.quotientFrom (hp : 0 < p.value) :
    ∀ {shift : Nat} {q r d m : Uint256}, Rounds n p shift q r d m →
      let result := quotientFrom (shift + 1) q r d m
      n.value = result.1.value * p.value + result.2.value ∧ result.2.value < p.value := by
  intro shift
  induction shift with
  | zero =>
      intro q r d m h
      obtain ⟨hequation, hlt⟩ := h.round hp
      rw [h.divisor, Nat.pow_zero, Nat.mul_one] at hlt
      rw [quotientFrom_succ, Crypto.quotientFrom]
      exact ⟨hequation, hlt⟩
  | succ shift ih =>
      intro q r d m h
      obtain ⟨hequation, hlt⟩ := h.round hp
      have hhalf : d.value = 2 * (p.value * 2 ^ shift) := by rw [h.divisor, Nat.pow_succ]; ring
      have hdivisor : d.rshift.value = p.value * 2 ^ shift := by
        rw [value_rshift, hhalf, Nat.mul_div_cancel_left _ (by omega)]
      have hmultiplier : m.rshift.value = 2 ^ shift := by
        rw [value_rshift, h.multiplier, Nat.pow_succ, Nat.mul_div_cancel _ (by omega)]
      rw [quotientFrom_succ]
      exact ih ⟨hequation, hdivisor, hmultiplier, by rw [hdivisor, ← hhalf]; exact hlt⟩

/-- Both loops find the same remainder. -/
theorem quotientFrom_remainder (rounds : Nat) (q r d m : Uint256) :
    (Crypto.quotientFrom rounds q r d m).2 = remainderFrom rounds r d := by
  induction rounds generalizing q r d m with
  | zero => rfl
  | succ rounds ih => rw [quotientFrom_succ, ih, remainderFrom]

end Rounds

/-! ### The division -/

section Division

variable (negative : Int → UInt32) {n p : Uint256} {shift : Nat}

/-- When `p` has no more bits than `n`, the loop is entered with the divisor right below `n`. -/
theorem rounds_quotient (hp : 0 < p.value) (hshift : p.value.size + shift = n.value.size) :
    ∃ m : Uint256, quotient negative n p =
        ⟨[(shift : Int) / 32], some (quotientFrom (shift + 1) zero n
          (p.lshift (UInt32.ofInt (n.maxNonZeroBit - p.maxNonZeroBit))) m)⟩ ∧
      Rounds n p shift zero n (p.lshift (UInt32.ofInt (n.maxNonZeroBit - p.maxNonZeroBit))) m := by
  have hntop := maxNonZeroBit_eq n
  have hptop := maxNonZeroBit_eq p
  have hpsize : 0 < p.value.size := Nat.size_pos.mpr hp
  have hnsize : n.value.size ≤ 256 := Nat.size_le.mpr n.value_lt_modulus
  have hdistance : n.maxNonZeroBit - p.maxNonZeroBit = shift := by omega
  have hd := value_lshift_distance hdistance
  obtain ⟨m, hm, hwrite⟩ := setLimb_distance negative (show shift < 256 by omega)
  refine ⟨m, ?_, ?_, hd, hm, ?_⟩
  · have hrounds : ((shift : Int) + 1).toNat = shift + 1 := by omega
    rw [quotient, hdistance, hwrite, hrounds]
    rfl
  · rw [show zero.value = 0 from rfl, Nat.zero_mul, Nat.zero_add]
  · rw [hd]
    exact lt_double_shift hp hshift

/-- When `p` has more bits than `n` there is no round, and only the write is left. -/
theorem quotient_of_size_lt {distance : Nat} (hpos : 0 < distance)
    (hdistance : n.value.size + distance = p.value.size) :
    quotient negative n p =
      ⟨[-(distance / 32 : Nat)], if distance < 32 then some (zero, n) else none⟩ := by
  have hntop := maxNonZeroBit_eq n
  have hptop := maxNonZeroBit_eq p
  have hbmax : n.maxNonZeroBit - p.maxNonZeroBit = -(distance : Int) := by omega
  have hlimb : (-(distance : Int)).tdiv 32 = -(distance / 32 : Nat) := by
    rw [Int.neg_tdiv, Int.tdiv_eq_ediv_of_nonneg (Int.natCast_nonneg distance)]
    rfl
  have hrounds : (-(distance : Int) + 1).toNat = 0 := by omega
  rw [quotient, hbmax, hlimb, hrounds, setLimb]
  by_cases hnear : distance < 32
  · rw [if_pos hnear, if_pos (by omega)]
    rfl
  · rw [if_neg hnear, if_neg (by omega)]
    rfl

end Division

end RetroShare.Crypto
