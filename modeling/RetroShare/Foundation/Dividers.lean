import Mathlib.Tactic

/-!
# Dividers

Counters that gain in proportion to their weights and wrap at one total. Of those that wrap in a round the
lowest is served. When a weight exceeds the sum of the weights below it, its counter gets ahead of theirs in
each round in which it is not served, and it can only get so far.
-/

namespace RetroShare.Dividers

open Finset

/-- The counters before and after a round, in which some gained and some of these wrapped. -/
structure Round (total inc : Nat) (weight : Nat → Nat) (gains wraps : Nat → Bool)
    (before after : Nat → Nat) : Prop where
  idle : ∀ k, gains k = false → after k = before k
  grown : ∀ k, gains k = true → wraps k = false → after k = before k + inc * weight k
  wrapped : ∀ k, gains k = true → wraps k = true → after k + total = before k + inc * weight k
  /-- Only what gains can wrap. -/
  gained : ∀ k, wraps k = true → gains k = true

/-- How far a counter is ahead of those below it. -/
def lead (counter : Nat → Nat) (j : Nat) : Int := counter j - ∑ k ∈ range j, (counter k : Int)

variable {total inc j : Nat} {weight before after : Nat → Nat} {gains wraps : Nat → Bool}

theorem Round.after_add_le (hround : Round total inc weight gains wraps before after) (k : Nat) :
    after k + (if wraps k then total else 0) ≤ before k + inc * weight k := by
  cases hgains : gains k with
  | false =>
      have hno : wraps k = false := by
        by_contra hwraps
        have := hround.gained k (by simpa using hwraps)
        rw [hgains] at this
        cases this
      rw [hround.idle k hgains, hno]
      exact Nat.le_add_right _ _
  | true =>
      cases hwraps : wraps k with
      | false => exact (hround.grown k hgains hwraps).le
      | true => exact (hround.wrapped k hgains hwraps).le

theorem Round.sum_le (hround : Round total inc weight gains wraps before after) (j : Nat) :
    (∑ k ∈ range j, after k) + (∑ k ∈ range j, if wraps k then total else 0) ≤
      (∑ k ∈ range j, before k) + inc * ∑ k ∈ range j, weight k := by
  rw [mul_sum, ← sum_add_distrib, ← sum_add_distrib]
  exact sum_le_sum fun k _ => hround.after_add_le k

/-- A counter that gains and is not served gets ahead. -/
theorem Round.lead_lt (hround : Round total inc weight gains wraps before after)
    (hheavy : ∑ k ∈ range j, weight k < weight j) (hinc : 0 < inc) (hgains : gains j = true)
    (hunserved : wraps j = true → ∃ k < j, wraps k = true) : lead before j < lead after j := by
  have hsum := hround.sum_le j
  have hgain : inc * (∑ k ∈ range j, weight k) + 1 ≤ inc * weight j := by
    have := Nat.mul_lt_mul_of_pos_left hheavy hinc
    omega
  have hself : before j + inc * weight j ≤
      after j + ∑ k ∈ range j, if wraps k then total else 0 := by
    cases hwraps : wraps j with
    | false =>
        rw [hround.grown j hgains hwraps]
        exact Nat.le_add_right _ _
    | true =>
        obtain ⟨k, hk, hwrapsk⟩ := hunserved hwraps
        have hle := single_le_sum (f := fun k => if wraps k then total else 0)
          (fun k _ => Nat.zero_le _) (mem_range.mpr hk)
        rw [← hround.wrapped j hgains hwraps]
        simp only [hwrapsk, if_true] at hle
        omega
  unfold lead
  rw [← Nat.cast_sum, ← Nat.cast_sum]
  omega

/-- Counters that stay below the total. -/
theorem lead_lt_total (hbelow : before j < total) : lead before j < total := by
  unfold lead
  rw [← Nat.cast_sum]
  omega

theorem neg_lead_le (hbelow : ∀ k < j, before k ≤ total) : -lead before j ≤ (j * total : Nat) := by
  have hsum : ∑ k ∈ range j, before k ≤ ∑ _k ∈ range j, total :=
    sum_le_sum fun k hk => hbelow k (mem_range.mp hk)
  rw [sum_const, card_range, smul_eq_mul] at hsum
  unfold lead
  rw [← Nat.cast_sum]
  omega

/-- The powers of a number from 2 on are heavy enough. -/
theorem sum_pow_lt {base : Nat} (hbase : 2 ≤ base) (j : Nat) :
    ∑ k ∈ range j, base ^ k < base ^ j := by
  induction j with
  | zero => simp
  | succ j ih =>
      rw [sum_range_succ, pow_succ]
      have := Nat.mul_le_mul_left (base ^ j) hbase
      omega

end RetroShare.Dividers
