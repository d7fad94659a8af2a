import Mathlib.Algebra.Order.Floor.Ring
import Mathlib.Algebra.Order.Ring.Rat
import Mathlib.Data.Rat.Floor
import Mathlib.Tactic.Linarith

/-!
# Rounding to the nearest integer

`rint` of the C library in its default mode, over the rationals: to the nearest integer, and to the
even one of two that are as near.
-/

namespace RetroShare.Rounding

/-- The nearest integer, ties to even. -/
def rint (x : ℚ) : ℤ :=
  if 2 * (x - ⌊x⌋) < 1 ∨ 2 * (x - ⌊x⌋) = 1 ∧ ⌊x⌋ % 2 = 0 then ⌊x⌋ else ⌊x⌋ + 1

theorem rint_le_add_half (x : ℚ) : (rint x : ℚ) ≤ x + 1 / 2 := by
  have hfloor := Int.floor_le x
  rw [rint]
  split
  case isTrue => linarith
  case isFalse hup =>
    rw [not_or, not_lt] at hup
    push_cast
    linarith [hup.1]

theorem sub_half_le_rint (x : ℚ) : x - 1 / 2 ≤ rint x := by
  have hfloor := Int.lt_floor_add_one x
  rw [rint]
  split
  case isTrue hdown =>
    rcases hdown with hdown | hdown
    · linarith
    · linarith [hdown.1]
  case isFalse =>
    push_cast
    linarith

@[simp] theorem rint_intCast (n : ℤ) : rint n = n := by
  rw [rint, Int.floor_intCast, if_pos (Or.inl (by norm_num))]

/-- Nothing is rounded beyond an integer. -/
theorem rint_le_of_le {x : ℚ} {n : ℤ} (hle : x ≤ n) : rint x ≤ n := by
  have hnear := rint_le_add_half x
  have hlt : (rint x : ℚ) < n + 1 := by linarith
  exact Int.lt_add_one_iff.mp (by exact_mod_cast hlt)

theorem le_rint_of_le {x : ℚ} {n : ℤ} (hle : (n : ℚ) ≤ x) : n ≤ rint x := by
  have hnear := sub_half_le_rint x
  have hlt : (n : ℚ) < rint x + 1 := by linarith
  exact Int.lt_add_one_iff.mp (by exact_mod_cast hlt)

example : rint (5 / 2) = 2 ∧ rint (7 / 2) = 4 := by
  norm_num [rint]

end RetroShare.Rounding
