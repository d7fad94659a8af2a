import Mathlib.Tactic
import Mathlib.Data.Nat.Digits.Lemmas
import Mathlib.Algebra.BigOperators.ModEq

/-!
# Numbers in limbs

Unsigned numbers of any fixed length as 32-bit limbs, least significant first, and the textbook
operations on them: addition with a carry, complement, comparison, shifts, schoolbook product. Each
operation is described by the number its result stands for, modulo the radix to the power of the
length.
-/

namespace RetroShare.Limbs

def radix : Nat := 2 ^ 32

/-- The number the limbs stand for. -/
def value (limbs : List UInt32) : Nat := Nat.ofDigits radix (limbs.map UInt32.toNat)

@[simp] theorem value_nil : value [] = 0 := rfl

@[simp] theorem value_cons (x : UInt32) (xs : List UInt32) :
    value (x :: xs) = x.toNat + radix * value xs :=
  Nat.ofDigits_cons

theorem value_append (xs ys : List UInt32) :
    value (xs ++ ys) = value xs + radix ^ xs.length * value ys := by
  rw [value, List.map_append, Nat.ofDigits_append, List.length_map]
  rfl

theorem radix_pos : 0 < radix := Nat.two_pow_pos 32

theorem toNat_lt_radix (x : UInt32) : x.toNat < radix := UInt32.toNat_lt x

theorem value_lt (xs : List UInt32) : value xs < radix ^ xs.length := by
  induction xs with
  | nil => exact Nat.one_pos
  | cons x xs ih =>
      have hx := toNat_lt_radix x
      calc
        value (x :: xs) = x.toNat + radix * value xs := value_cons x xs
        _ < radix + radix * value xs := Nat.add_lt_add_right hx _
        _ = radix * (value xs + 1) := by rw [Nat.mul_add, Nat.mul_one, Nat.add_comm]
        _ ≤ radix * radix ^ xs.length := Nat.mul_le_mul_left radix ih
        _ = radix ^ (xs.length + 1) := (Nat.pow_succ').symm

theorem value_replicate_zero (n : Nat) : value (List.replicate n 0) = 0 := by
  induction n with
  | zero => rfl
  | succ n ih => rw [List.replicate_succ, value_cons, ih]; rfl

/-- One column of an operation that works modulo a power of the radix. -/
theorem mod_radix_pow_succ (a b n : Nat) :
    (a + radix * b) % radix ^ (n + 1) = a % radix + radix * ((b + a / radix) % radix ^ n) := by
  have hdiv : (a + radix * b) / radix = b + a / radix := by
    rw [Nat.add_mul_div_left a b radix_pos, Nat.add_comm]
  rw [Nat.pow_succ', Nat.mod_mul, Nat.add_mul_mod_self_left, hdiv]

/-! ### Addition -/

/-- Column by column, the carry in a double word. -/
def addCarry : UInt64 → List UInt32 → List UInt32 → List UInt32
  | carry, x :: xs, y :: ys =>
      let sum := carry + (x.toUInt64 + y.toUInt64)
      sum.toUInt32 :: addCarry (sum >>> 32) xs ys
  | _, _, _ => []

theorem length_addCarry {xs ys : List UInt32} (hlength : xs.length = ys.length) (carry : UInt64) :
    (addCarry carry xs ys).length = xs.length := by
  induction xs generalizing ys carry with
  | nil => rfl
  | cons x xs ih =>
      cases ys with
      | nil => cases hlength
      | cons y ys => rw [addCarry, List.length_cons, ih (Nat.succ.inj hlength), List.length_cons]

theorem column_sum {carry : UInt64} (hcarry : carry.toNat ≤ 1) (x y : UInt32) :
    (carry + (x.toUInt64 + y.toUInt64)).toNat = carry.toNat + (x.toNat + y.toNat) := by
  have hx := x.toNat_lt
  have hy := y.toNat_lt
  rw [UInt64.toNat_add, UInt64.toNat_add, UInt32.toNat_toUInt64, UInt32.toNat_toUInt64]
  omega

theorem value_addCarry {xs ys : List UInt32} (hlength : xs.length = ys.length) {carry : UInt64}
    (hcarry : carry.toNat ≤ 1) :
    value (addCarry carry xs ys) = (value xs + value ys + carry.toNat) % radix ^ xs.length := by
  induction xs generalizing ys carry with
  | nil =>
      rw [List.length_eq_zero_iff.mp hlength.symm]
      exact (Nat.mod_one _).symm
  | cons x xs ih =>
      cases ys with
      | nil => cases hlength
      | cons y ys =>
          have hsum := column_sum hcarry x y
          have hx := toNat_lt_radix x
          have hy := toNat_lt_radix y
          have hlow : (carry + (x.toUInt64 + y.toUInt64)).toUInt32.toNat =
              (carry.toNat + (x.toNat + y.toNat)) % radix := by
            rw [UInt64.toNat_toUInt32, hsum]
            rfl
          have hhigh : ((carry + (x.toUInt64 + y.toUInt64)) >>> 32).toNat =
              (carry.toNat + (x.toNat + y.toNat)) / radix := by
            rw [UInt64.toNat_shiftRight, hsum, Nat.shiftRight_eq_div_pow]
            rfl
          have hnext : ((carry + (x.toUInt64 + y.toUInt64)) >>> 32).toNat ≤ 1 := by
            rw [hhigh]
            unfold radix at hx hy ⊢
            omega
          calc
            value (addCarry carry (x :: xs) (y :: ys)) =
                (carry.toNat + (x.toNat + y.toNat)) % radix + radix * ((value xs + value ys +
                  (carry.toNat + (x.toNat + y.toNat)) / radix) % radix ^ xs.length) := by
              rw [addCarry, value_cons, ih (Nat.succ.inj hlength) hnext, hlow, hhigh]
            _ = (carry.toNat + (x.toNat + y.toNat) + radix * (value xs + value ys)) %
                radix ^ (xs.length + 1) := (mod_radix_pow_succ _ _ _).symm
            _ = (value (x :: xs) + value (y :: ys) + carry.toNat) %
                radix ^ (x :: xs).length := by
              rw [value_cons, value_cons, List.length_cons]
              congr 1
              ring

/-- One more, stopping at the first limb that does not wrap around. -/
def increment : List UInt32 → List UInt32
  | [] => []
  | x :: xs => if x + 1 ≠ 0 then (x + 1) :: xs else (x + 1) :: increment xs

theorem length_increment (xs : List UInt32) : (increment xs).length = xs.length := by
  induction xs with
  | nil => rfl
  | cons x xs ih =>
      rw [increment]
      split
      · rfl
      · rw [List.length_cons, ih, List.length_cons]

theorem value_increment (xs : List UInt32) :
    value (increment xs) = (value xs + 1) % radix ^ xs.length := by
  induction xs with
  | nil => exact (Nat.mod_one _).symm
  | cons x xs ih =>
      have hx := toNat_lt_radix x
      have hword : (x + 1).toNat = (x.toNat + 1) % radix := by rw [UInt32.toNat_add]; rfl
      have hcolumn := mod_radix_pow_succ (x.toNat + 1) (value xs) xs.length
      rw [List.length_cons, value_cons, Nat.add_right_comm, hcolumn, increment]
      have hxs := value_lt xs
      by_cases hwrap : x + 1 = 0
      · rw [if_neg (not_not.mpr hwrap), value_cons, ih, hword]
        have hfull : x.toNat + 1 = radix := by
          rw [hwrap] at hword
          by_contra hne
          rw [Nat.mod_eq_of_lt (by omega)] at hword
          exact absurd hword.symm (Nat.succ_ne_zero _)
        rw [hfull, Nat.div_self radix_pos]
      · rw [if_pos hwrap, value_cons, hword]
        have hroom : x.toNat + 1 < radix := by
          by_contra hfull
          apply hwrap
          apply UInt32.toNat_inj.mp
          rw [hword, show x.toNat + 1 = radix by omega, Nat.mod_self]
          rfl
        rw [Nat.div_eq_of_lt hroom, Nat.add_zero (value xs), Nat.mod_eq_of_lt hxs]

/-! ### Complement, masks and comparison -/

def complement (xs : List UInt32) : List UInt32 := xs.map (~~~ ·)

theorem value_complement (xs : List UInt32) :
    value (complement xs) + value xs + 1 = radix ^ xs.length := by
  induction xs with
  | nil => rfl
  | cons x xs ih =>
      have hword : (~~~ x).toNat + x.toNat + 1 = radix := by
        have hx := toNat_lt_radix x
        rw [UInt32.toNat_not]
        unfold radix at hx ⊢
        have hsize : UInt32.size = 2 ^ 32 := rfl
        omega
      rw [complement, List.map_cons, value_cons, value_cons, List.length_cons, Nat.pow_succ', ← ih]
      calc
        (~~~ x).toNat + radix * value (complement xs) + (x.toNat + radix * value xs) + 1 =
            ((~~~ x).toNat + x.toNat + 1) + radix * (value (complement xs) + value xs) := by ring
        _ = radix * (value (complement xs) + value xs + 1) := by rw [hword]; ring

theorem value_and (x y : UInt32) (xs ys : List UInt32) :
    value (x :: xs) &&& value (y :: ys) = (x &&& y).toNat + radix * (value xs &&& value ys) := by
  have hx := toNat_lt_radix x
  have hy := toNat_lt_radix y
  have hlow : (value (x :: xs) &&& value (y :: ys)) % radix = (x &&& y).toNat := by
    rw [radix, Nat.and_mod_two_pow, ← radix, value_cons, value_cons, Nat.add_mul_mod_self_left,
      Nat.add_mul_mod_self_left, Nat.mod_eq_of_lt hx, Nat.mod_eq_of_lt hy, UInt32.toNat_and]
  have hhigh : (value (x :: xs) &&& value (y :: ys)) / radix = value xs &&& value ys := by
    rw [radix, Nat.and_div_two_pow, ← radix, value_cons, value_cons,
      Nat.add_mul_div_left _ _ radix_pos, Nat.add_mul_div_left _ _ radix_pos,
      Nat.div_eq_of_lt hx, Nat.div_eq_of_lt hy, Nat.zero_add, Nat.zero_add]
  rw [← hlow, ← hhigh]
  exact (Nat.mod_add_div _ _).symm

theorem value_zipWith_and {xs ys : List UInt32} (hlength : xs.length = ys.length) :
    value (List.zipWith (· &&& ·) xs ys) = value xs &&& value ys := by
  induction xs generalizing ys with
  | nil =>
      rw [List.length_eq_zero_iff.mp hlength.symm]
      rfl
  | cons x xs ih =>
      cases ys with
      | nil => cases hlength
      | cons y ys =>
          rw [value_and, List.zipWith_cons_cons, value_cons, ih (Nat.succ.inj hlength)]

/-- Comparison from the most significant limb; the arguments are reversed lists of limbs. -/
def below : List UInt32 → List UInt32 → Bool
  | x :: xs, y :: ys => if x < y then true else if x > y then false else below xs ys
  | _, _ => false

theorem below_eq {xs ys : List UInt32} (hlength : xs.length = ys.length) :
    below xs ys = decide (value xs.reverse < value ys.reverse) := by
  induction xs generalizing ys with
  | nil =>
      rw [List.length_eq_zero_iff.mp hlength.symm]
      rfl
  | cons x xs ih =>
      cases ys with
      | nil => cases hlength
      | cons y ys =>
          have hlow := value_lt xs.reverse
          have hlow' := value_lt ys.reverse
          have hrest := ih (Nat.succ.inj hlength)
          rw [List.length_reverse] at hlow hlow'
          rw [← Nat.succ.inj hlength] at hlow'
          rw [below, List.reverse_cons, List.reverse_cons, value_append, value_append, value_cons,
            value_cons, value_nil, Nat.mul_zero, Nat.add_zero, Nat.add_zero, List.length_reverse,
            List.length_reverse, ← Nat.succ.inj hlength]
          generalize radix ^ xs.length = unit at hlow hlow' ⊢
          have hlt : x < y ↔ x.toNat < y.toNat := UInt32.lt_iff_toNat_lt
          have hgt : x > y ↔ y.toNat < x.toNat := UInt32.lt_iff_toNat_lt
          rcases lt_trichotomy x.toNat y.toNat with hless | heq | hmore
          · have hstep : unit * (x.toNat + 1) ≤ unit * y.toNat := Nat.mul_le_mul_left unit hless
            rw [if_pos (hlt.mpr hless), eq_comm, decide_eq_true_iff]
            rw [Nat.mul_add] at hstep
            omega
          · rw [if_neg (mt hlt.mp (by omega)), if_neg (mt hgt.mp (by omega)), heq, hrest]
            exact decide_eq_decide.mpr (Nat.add_lt_add_iff_right).symm
          · have hstep : unit * (y.toNat + 1) ≤ unit * x.toNat := Nat.mul_le_mul_left unit hmore
            rw [if_neg (mt hlt.mp (by omega)), if_pos (hgt.mpr hmore), eq_comm,
              decide_eq_false_iff_not]
            rw [Nat.mul_add] at hstep
            omega

/-! ### Shifts -/

/-- To the right by one bit, from the most significant limb, with the bit that falls out. -/
def halve : List UInt32 → List UInt32 × UInt32
  | [] => ([], 0)
  | x :: xs =>
      let (ys, r) := halve xs
      ((if r ≠ 0 then (x >>> 1) + 0x80000000 else x >>> 1) :: ys, x &&& 1)

theorem length_halve (xs : List UInt32) : (halve xs).1.length = xs.length := by
  induction xs with
  | nil => rfl
  | cons x xs ih => rw [halve, List.length_cons, ih, List.length_cons]

theorem halve_limb (x r : UInt32) (hr : r.toNat ≤ 1) :
    (if r ≠ 0 then (x >>> 1) + 0x80000000 else x >>> 1).toNat = x.toNat / 2 + r.toNat * 2 ^ 31 := by
  have hx := x.toNat_lt
  have hshift : (x >>> 1).toNat = x.toNat / 2 := by
    rw [UInt32.toNat_shiftRight, Nat.shiftRight_eq_div_pow]
    rfl
  have hzero : r = 0 ↔ r.toNat = 0 := (UInt32.toNat_inj).symm
  by_cases hbit : r = 0
  · rw [if_neg (not_not.mpr hbit), hshift, hzero.mp hbit, Nat.zero_mul, Nat.add_zero]
  · have hone : r.toNat = 1 := by
      have := mt hzero.mpr hbit
      omega
    have htop : (0x80000000 : UInt32).toNat = 2 ^ 31 := rfl
    rw [if_pos hbit, UInt32.toNat_add, hshift, htop, hone]
    omega

theorem halve_spec (xs : List UInt32) :
    value (halve xs).1 = value xs / 2 ∧ (halve xs).2.toNat = value xs % 2 := by
  induction xs with
  | nil => exact ⟨rfl, rfl⟩
  | cons x xs ih =>
      have hlow : (x &&& 1).toNat = x.toNat % 2 := by
        rw [UInt32.toNat_and]
        exact Nat.and_one_is_mod x.toNat
      have hlimb := halve_limb x (halve xs).2 (by omega)
      rw [halve, value_cons, value_cons, hlimb, ih.1, ih.2, hlow]
      unfold radix
      omega

/-- To the left by fewer bits than a limb has, from the least significant limb, with the bits that
fall out of one limb added to the next. -/
def shiftBits (u : UInt32) : UInt32 → List UInt32 → List UInt32
  | _, [] => []
  | r, x :: xs => (((x <<< u) &&& 0xffffffff) + r) :: shiftBits u (x >>> (31 - u + 1)) xs

theorem length_shiftBits (u r : UInt32) (xs : List UInt32) :
    (shiftBits u r xs).length = xs.length := by
  induction xs generalizing r with
  | nil => rfl
  | cons x xs ih => rw [shiftBits, List.length_cons, ih, List.length_cons]

theorem shiftBits_limb {u r : UInt32} (hu : 0 < u.toNat) (hu' : u.toNat < 32)
    (hr : r.toNat < 2 ^ u.toNat) (x : UInt32) :
    (((x <<< u) &&& 0xffffffff) + r).toNat = (x.toNat * 2 ^ u.toNat + r.toNat) % radix ∧
      (x >>> (31 - u + 1)).toNat = (x.toNat * 2 ^ u.toNat + r.toNat) / radix := by
  have hx := x.toNat_lt
  have hdistance : (31 - u + 1).toNat = 32 - u.toNat := by
    have hle : u ≤ 31 := UInt32.le_iff_toNat_le.mpr (show u.toNat ≤ 31 by omega)
    rw [UInt32.toNat_add, UInt32.toNat_sub_of_le _ _ hle]
    change (31 - u.toNat + 1) % 2 ^ 32 = _
    omega
  have hmask : ((x <<< u) &&& 0xffffffff) = x <<< u := by
    apply UInt32.toNat_inj.mp
    rw [UInt32.toNat_and]
    exact (Nat.and_two_pow_sub_one_eq_mod _ 32).trans (Nat.mod_eq_of_lt (UInt32.toNat_lt _))
  have hsplit : radix = 2 ^ (32 - u.toNat) * 2 ^ u.toNat := by
    rw [radix, ← Nat.pow_add]
    congr 1
    omega
  have hshift : (x <<< u).toNat = x.toNat % 2 ^ (32 - u.toNat) * 2 ^ u.toNat := by
    rw [UInt32.toNat_shiftLeft, Nat.mod_eq_of_lt hu', Nat.shiftLeft_eq]
    change x.toNat * 2 ^ u.toNat % radix = _
    rw [hsplit, Nat.mul_mod_mul_right]
  have hroom : x.toNat % 2 ^ (32 - u.toNat) * 2 ^ u.toNat + r.toNat < radix := by
    have hlow : x.toNat % 2 ^ (32 - u.toNat) + 1 ≤ 2 ^ (32 - u.toNat) :=
      Nat.mod_lt _ (Nat.two_pow_pos _)
    have hstep := Nat.mul_le_mul_right (2 ^ u.toNat) hlow
    rw [← hsplit, Nat.add_mul, Nat.one_mul] at hstep
    omega
  have hvalue : x.toNat * 2 ^ u.toNat + r.toNat =
      x.toNat % 2 ^ (32 - u.toNat) * 2 ^ u.toNat + r.toNat +
        radix * (x.toNat / 2 ^ (32 - u.toNat)) := by
    conv_lhs => rw [← Nat.mod_add_div x.toNat (2 ^ (32 - u.toNat))]
    rw [hsplit]
    ring
  constructor
  · rw [hmask, UInt32.toNat_add, hshift, hvalue, Nat.add_mul_mod_self_left]
    rfl
  · rw [UInt32.toNat_shiftRight, hdistance, Nat.mod_eq_of_lt (by omega),
      Nat.shiftRight_eq_div_pow, hvalue, Nat.add_mul_div_left _ _ radix_pos,
      Nat.div_eq_of_lt hroom, Nat.zero_add]

theorem value_shiftBits {u : UInt32} (hu : 0 < u.toNat) (hu' : u.toNat < 32) {r : UInt32}
    (hr : r.toNat < 2 ^ u.toNat) (xs : List UInt32) :
    value (shiftBits u r xs) = (value xs * 2 ^ u.toNat + r.toNat) % radix ^ xs.length := by
  induction xs generalizing r with
  | nil => exact (Nat.mod_one _).symm
  | cons x xs ih =>
      obtain ⟨hlimb, hcarry⟩ := shiftBits_limb hu hu' hr x
      have hnext : (x >>> (31 - u + 1)).toNat < 2 ^ u.toNat := by
        have hx := toNat_lt_radix x
        rw [hcarry]
        apply Nat.div_lt_of_lt_mul
        calc
          x.toNat * 2 ^ u.toNat + r.toNat < x.toNat * 2 ^ u.toNat + 2 ^ u.toNat :=
            Nat.add_lt_add_left hr _
          _ = (x.toNat + 1) * 2 ^ u.toNat := (Nat.succ_mul _ _).symm
          _ ≤ radix * 2 ^ u.toNat := Nat.mul_le_mul_right _ hx
      calc
        value (shiftBits u r (x :: xs)) = (x.toNat * 2 ^ u.toNat + r.toNat) % radix +
            radix * ((value xs * 2 ^ u.toNat + (x.toNat * 2 ^ u.toNat + r.toNat) / radix) %
              radix ^ xs.length) := by
          rw [shiftBits, value_cons, ih hnext, hlimb, hcarry]
        _ = (x.toNat * 2 ^ u.toNat + r.toNat + radix * (value xs * 2 ^ u.toNat)) %
            radix ^ (xs.length + 1) := (mod_radix_pow_succ _ _ _).symm
        _ = (value (x :: xs) * 2 ^ u.toNat + r.toNat) % radix ^ (x :: xs).length := by
          rw [value_cons, List.length_cons]
          congr 1
          ring

/-- To the left by whole limbs. -/
def shiftWords (p : Nat) (xs : List UInt32) : List UInt32 :=
  (List.range xs.length).map fun i => if p ≤ i then xs.getD (i - p) 0 else 0

theorem length_shiftWords (p : Nat) (xs : List UInt32) :
    (shiftWords p xs).length = xs.length := by
  rw [shiftWords, List.length_map, List.length_range]

theorem shiftWords_eq_take (p : Nat) (xs : List UInt32) :
    shiftWords p xs = (List.replicate p 0 ++ xs).take xs.length := by
  apply List.ext_getElem
  · simp [shiftWords]
  · intro i hi hi'
    rw [length_shiftWords] at hi
    rw [List.getElem_take, List.getElem_append]
    simp only [shiftWords, List.getElem_map, List.getElem_range, List.length_replicate,
      List.getElem_replicate]
    by_cases hp : p ≤ i
    · rw [if_pos hp, dif_neg (by omega), List.getD_eq_getElem?_getD,
        List.getElem?_eq_getElem (by omega), Option.getD_some]
    · rw [if_neg hp, dif_pos (by omega)]

theorem value_take (n : Nat) (xs : List UInt32) (hn : n ≤ xs.length) :
    value (xs.take n) = value xs % radix ^ n := by
  have hlength : (xs.take n).length = n := by rw [List.length_take]; omega
  have hlt := value_lt (xs.take n)
  rw [hlength] at hlt
  conv_rhs => rw [← List.take_append_drop n xs]
  rw [value_append, hlength, Nat.add_mul_mod_self_left, Nat.mod_eq_of_lt hlt]

theorem value_shiftWords (p : Nat) (xs : List UInt32) :
    value (shiftWords p xs) = value xs * radix ^ p % radix ^ xs.length := by
  rw [shiftWords_eq_take, value_take _ _ (by simp), value_append, value_replicate_zero,
    List.length_replicate, Nat.zero_add, Nat.mul_comm]

/-! ### Product -/

section Product

open Finset

theorem value_set (xs : List UInt32) (k : Nat) (hk : k < xs.length) (x : UInt32) :
    value (xs.set k x) + (xs.getD k 0).toNat * radix ^ k = value xs + x.toNat * radix ^ k := by
  induction xs generalizing k with
  | nil => cases hk
  | cons y ys ih =>
      cases k with
      | zero =>
          simp only [List.set_cons_zero, value_cons, List.getD_cons_zero, Nat.pow_zero, Nat.mul_one]
          omega
      | succ k =>
          have hrest := congrArg (radix * ·) (ih k (Nat.lt_of_succ_lt_succ hk))
          simp only [Nat.mul_add] at hrest
          simp only [List.set_cons_succ, value_cons, List.getD_cons_succ, Nat.pow_succ']
          calc
            y.toNat + radix * value (ys.set k x) + (ys.getD k 0).toNat * (radix * radix ^ k) =
                y.toNat + (radix * value (ys.set k x) +
                  radix * ((ys.getD k 0).toNat * radix ^ k)) := by ring
            _ = y.toNat + (radix * value ys + radix * (x.toNat * radix ^ k)) := by rw [hrest]
            _ = y.toNat + radix * value ys + x.toNat * (radix * radix ^ k) := by ring

theorem value_modify (xs : List UInt32) (k : Nat) (hk : k < xs.length) (f : UInt32 → UInt32) :
    value (xs.modify k f) + (xs.getD k 0).toNat * radix ^ k =
      value xs + (f (xs.getD k 0)).toNat * radix ^ k := by
  have hset : xs.modify k f = xs.set k (f (xs.getD k 0)) := by
    rw [List.modify_eq_set_getElem?, List.getD_eq_getElem?_getD, List.getElem?_eq_getElem hk]
    rfl
  rw [hset]
  exact value_set xs k hk _

/-- A limb is a digit of the number. -/
theorem getD_eq_digit (xs : List UInt32) (k : Nat) :
    (xs.getD k 0).toNat = value xs / radix ^ k % radix := by
  induction xs generalizing k with
  | nil => simp
  | cons x xs ih =>
      have hx := toNat_lt_radix x
      cases k with
      | zero =>
          rw [List.getD_cons_zero, Nat.pow_zero, Nat.div_one, value_cons,
            Nat.add_mul_mod_self_left, Nat.mod_eq_of_lt hx]
      | succ k =>
          rw [List.getD_cons_succ, ih, Nat.pow_succ', ← Nat.div_div_eq_div_mul, value_cons,
            Nat.add_mul_div_left _ _ radix_pos, Nat.div_eq_of_lt hx, Nat.zero_add]

theorem value_eq_sum (xs : List UInt32) :
    value xs = ∑ i ∈ range xs.length, (xs.getD i 0).toNat * radix ^ i := by
  induction xs with
  | nil => rfl
  | cons x xs ih =>
      rw [value_cons, List.length_cons, sum_range_succ', ih, mul_sum]
      simp only [List.getD_cons_zero, List.getD_cons_succ, Nat.pow_zero, Nat.mul_one, Nat.pow_succ']
      rw [Nat.add_comm]
      congr 1
      apply sum_congr rfl
      intro i _
      ring

/-- One product of two limbs in its place, the upper half dropped when there is no limb for it. -/
def partialProduct (n k : Nat) (s : UInt64) : List UInt32 :=
  let low := (List.replicate n 0).set k (s &&& 0xffffffff).toUInt32
  if k + 1 < n then low.set (k + 1) (s >>> 32).toUInt32 else low

theorem length_partialProduct (n k : Nat) (s : UInt64) : (partialProduct n k s).length = n := by
  unfold partialProduct
  split <;> simp

theorem value_partialProduct {n k : Nat} (hk : k < n) (s : UInt64) :
    value (partialProduct n k s) ≡ s.toNat * radix ^ k [MOD radix ^ n] := by
  have hlow : (s &&& 0xffffffff).toUInt32.toNat = s.toNat % radix := by
    rw [UInt64.toNat_toUInt32, UInt64.toNat_and]
    exact (congrArg (· % 2 ^ 32) (Nat.and_two_pow_sub_one_eq_mod s.toNat 32)).trans (Nat.mod_mod _ _)
  have hhigh : (s >>> 32).toUInt32.toNat = s.toNat / radix := by
    have hs := s.toNat_lt
    rw [UInt64.toNat_toUInt32, UInt64.toNat_shiftRight, Nat.shiftRight_eq_div_pow]
    change s.toNat / 2 ^ 32 % 2 ^ 32 = s.toNat / 2 ^ 32
    omega
  have hzero : ∀ i, ((List.replicate n (0 : UInt32)).getD i 0).toNat = 0 := by
    intro i
    rw [List.getD_eq_getElem?_getD, List.getElem?_replicate]
    split <;> rfl
  have hfirst := value_set (List.replicate n 0) k (by simpa using hk) (s &&& 0xffffffff).toUInt32
  rw [hzero, Nat.zero_mul, Nat.add_zero, value_replicate_zero, Nat.zero_add, hlow] at hfirst
  have hsplit : s.toNat * radix ^ k =
      s.toNat % radix * radix ^ k + s.toNat / radix * radix ^ (k + 1) := by
    conv_lhs => rw [← Nat.mod_add_div s.toNat radix]
    rw [Nat.pow_succ]
    ring
  unfold partialProduct
  by_cases hroom : k + 1 < n
  · have hsecond := value_set ((List.replicate n 0).set k (s &&& 0xffffffff).toUInt32) (k + 1)
      (by simpa using hroom) (s >>> 32).toUInt32
    rw [List.getD_eq_getElem?_getD, List.getElem?_set_ne (by omega), ← List.getD_eq_getElem?_getD,
      hzero, Nat.zero_mul, Nat.add_zero, hfirst, hhigh, ← hsplit] at hsecond
    rw [if_pos hroom, hsecond]
  · have hlast : k + 1 = n := by omega
    rw [if_neg hroom, hfirst, hsplit, hlast]
    exact (Nat.modEq_zero_iff_dvd.mpr (dvd_mul_left _ _)).symm.add_left _

/-- Every limb of the one factor times every limb of the other, added up. -/
def product (xs ys : List UInt32) : List UInt32 :=
  (List.range xs.length).foldl (fun r i => (List.range xs.length).foldl (fun r j =>
    if i + j < xs.length then
      addCarry 0 r (partialProduct xs.length (i + j)
        ((ys.getD j 0).toUInt64 * (xs.getD i 0).toUInt64))
    else r) r) (List.replicate xs.length 0)

/-- A loop that adds a number at each step, and keeps the length. -/
theorem value_foldl {n m : Nat} {step : List UInt32 → Nat → List UInt32} {term : Nat → Nat}
    (hstep : ∀ r i, r.length = n →
      (step r i).length = n ∧ value (step r i) ≡ value r + term i [MOD m]) (count : Nat)
    {r : List UInt32} (hr : r.length = n) :
    ((List.range count).foldl step r).length = n ∧
      value ((List.range count).foldl step r) ≡ value r + ∑ i ∈ range count, term i [MOD m] := by
  induction count with
  | zero => exact ⟨hr, Nat.ModEq.refl _⟩
  | succ count ih =>
      obtain ⟨hlength, hvalue⟩ := hstep _ count ih.1
      rw [List.range_succ, List.foldl_append, List.foldl_cons, List.foldl_nil, sum_range_succ,
        ← Nat.add_assoc]
      exact ⟨hlength, hvalue.trans (ih.2.add_right _)⟩

theorem mul_limbs_toNat (x y : UInt32) : (y.toUInt64 * x.toUInt64).toNat = y.toNat * x.toNat := by
  have hx := x.toNat_lt
  have hy := y.toNat_lt
  have hproduct : y.toNat * x.toNat < 2 ^ 32 * 2 ^ 32 := Nat.mul_lt_mul'' hy hx
  rw [UInt64.toNat_mul, UInt32.toNat_toUInt64, UInt32.toNat_toUInt64]
  exact Nat.mod_eq_of_lt hproduct

/-- The share of the column `i + j` in the product. -/
def column (xs ys : List UInt32) (i j : Nat) : Nat :=
  (ys.getD j 0).toNat * (xs.getD i 0).toNat * radix ^ (i + j)

theorem column_step {xs ys r : List UInt32} (hr : r.length = xs.length) {i j : Nat}
    (hij : i + j < xs.length) :
    let sum := addCarry 0 r (partialProduct xs.length (i + j)
      ((ys.getD j 0).toUInt64 * (xs.getD i 0).toUInt64))
    sum.length = xs.length ∧
      value sum ≡ value r + column xs ys i j [MOD radix ^ xs.length] := by
  have hlength : r.length = (partialProduct xs.length (i + j)
      ((ys.getD j 0).toUInt64 * (xs.getD i 0).toUInt64)).length := by
    rw [hr, length_partialProduct]
  have hpart := value_partialProduct hij ((ys.getD j 0).toUInt64 * (xs.getD i 0).toUInt64)
  rw [mul_limbs_toNat] at hpart
  refine ⟨by rw [length_addCarry hlength, hr], ?_⟩
  rw [value_addCarry hlength (show (0 : UInt64).toNat ≤ 1 from Nat.zero_le 1), hr]
  exact (Nat.mod_modEq _ _).trans (hpart.add_left _)

theorem product_spec {xs ys : List UInt32} (hlength : xs.length = ys.length) :
    (product xs ys).length = xs.length ∧
      value (product xs ys) = value xs * value ys % radix ^ xs.length := by
  let kept (i j : Nat) : Nat := if i + j < xs.length then column xs ys i j else 0
  have hinner : ∀ i r j, r.length = xs.length →
      let next := if i + j < xs.length then
        addCarry 0 r (partialProduct xs.length (i + j)
          ((ys.getD j 0).toUInt64 * (xs.getD i 0).toUInt64))
        else r
      next.length = xs.length ∧ value next ≡ value r + kept i j [MOD radix ^ xs.length] := by
    intro i r j hr
    by_cases hij : i + j < xs.length
    · simp only [if_pos hij, kept]
      exact column_step hr hij
    · simp only [if_neg hij, kept]
      exact ⟨hr, Nat.ModEq.refl _⟩
  have houter := value_foldl (fun r i hr => value_foldl (hinner i) xs.length hr) xs.length
    (List.length_replicate (n := xs.length) (a := (0 : UInt32)))
  -- the columns that are left out are multiples of the power
  have hcolumns : ∀ i j, kept i j ≡ column xs ys i j [MOD radix ^ xs.length] := by
    intro i j
    by_cases hij : i + j < xs.length
    · simp only [kept, if_pos hij]
      exact Nat.ModEq.refl _
    · simp only [kept, if_neg hij]
      exact (Nat.modEq_zero_iff_dvd.mpr
        ((pow_dvd_pow radix (Nat.le_of_not_lt hij)).mul_left _)).symm
  have hsum : ∑ i ∈ range xs.length, ∑ j ∈ range xs.length, column xs ys i j =
      value xs * value ys := by
    rw [value_eq_sum xs, value_eq_sum ys, ← hlength, sum_mul_sum]
    apply sum_congr rfl
    intro i _
    apply sum_congr rfl
    intro j _
    rw [column, Nat.pow_add]
    ring
  have hproduct : (product xs ys).length = xs.length ∧ value (product xs ys) ≡
      value xs * value ys [MOD radix ^ xs.length] := by
    refine ⟨houter.1, houter.2.trans ?_⟩
    rw [value_replicate_zero, Nat.zero_add, ← hsum]
    exact Nat.ModEq.sum fun i _ => Nat.ModEq.sum fun j _ => hcolumns i j
  have hlt := value_lt (product xs ys)
  rw [hproduct.1] at hlt
  refine ⟨hproduct.1, ?_⟩
  rw [← Nat.mod_eq_of_lt hlt]
  exact hproduct.2

end Product

end RetroShare.Limbs
