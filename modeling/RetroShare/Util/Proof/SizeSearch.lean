import RetroShare.Util.RegularExpression

/-!
# Searching by size

A relational expression has its bound on the left: `GreaterEquals` is met by the numbers up to the
bound. The bounds are `int`, and so is what they are compared with: the size of a file is cut to its
low 32 bits first.
-/

namespace RetroShare.RegularExpression

namespace RelExpression

/-- The operator holds between the bounds and a number of any size. -/
def Relates (rel : RelExpression) (n : Int) : Prop :=
  match rel.op with
  | .equals => rel.lowerValue.toInt = n
  | .greaterEquals => rel.lowerValue.toInt ≥ n
  | .greater => rel.lowerValue.toInt > n
  | .smallerEquals => rel.lowerValue.toInt ≤ n
  | .smaller => rel.lowerValue.toInt < n
  | .inRange => rel.lowerValue.toInt ≤ n ∧ n ≤ rel.higherValue.toInt

/-- The number lies where the numbers that are no `int` lie: beyond the bounds, or off the bound. -/
def Passes (rel : RelExpression) (n : Int) : Prop :=
  match rel.op with
  | .equals => n ≠ rel.lowerValue.toInt
  | .greaterEquals | .smaller => rel.lowerValue.toInt < n
  | .greater | .smallerEquals => rel.lowerValue.toInt ≤ n
  | .inRange => n < rel.lowerValue.toInt ∨ rel.higherValue.toInt < n

theorem evalRel_iff (rel : RelExpression) (val : Int32) :
    rel.evalRel val = true ↔ rel.Relates val.toInt := by
  unfold evalRel Relates
  cases rel.op with
  | equals =>
      rw [beq_iff_eq]
      exact ⟨congrArg Int32.toInt, Int32.toInt_inj.mp⟩
  | greaterEquals | greater | smallerEquals | smaller =>
      simp only [decide_eq_true_iff, GE.ge, GT.gt, Int32.le_iff_toInt_le, Int32.lt_iff_toInt_lt]
  | inRange =>
      simp only [Bool.and_eq_true, decide_eq_true_iff, Int32.le_iff_toInt_le]

/-- Beyond the bounds, the outcome depends on the operator alone. -/
theorem relates_iff_of_passes {rel : RelExpression} {n : Int} (hpasses : rel.Passes n) :
    rel.Relates n ↔ rel.op = .smallerEquals ∨ rel.op = .smaller := by
  unfold Passes at hpasses
  unfold Relates
  cases hop : rel.op
  all_goals
    simp only [hop, reduceCtorEq, or_self, or_true, true_or, iff_false, iff_true] at hpasses ⊢
    omega

theorem passes_of_relates_iff {rel : RelExpression} {n : Int}
    (hrelates : rel.Relates n ↔ rel.op = .smallerEquals ∨ rel.op = .smaller) : rel.Passes n := by
  unfold Relates at hrelates
  unfold Passes
  cases hop : rel.op
  all_goals
    simp only [hop, reduceCtorEq, or_self, or_true, true_or, iff_false, iff_true] at hrelates ⊢
    omega

theorem passes_of_le (rel : RelExpression) {n : Int} (hlarge : 2 ^ 31 ≤ n) : rel.Passes n := by
  have hlower := rel.lowerValue.toInt_lt
  have hhigher := rel.higherValue.toInt_lt
  unfold Passes
  cases rel.op
  all_goals
    dsimp only
    omega

end RelExpression

/-- What is left of a 64-bit number when it is converted to `int`. -/
def cutToInt (n : UInt64) : Int := n.toUInt32.toInt32.toInt

theorem cutToInt_of_lt {n : UInt64} (hsmall : n.toNat < 2 ^ 31) : cutToInt n = n.toNat := by
  have hword : n.toUInt32.toBitVec.toNat = n.toNat :=
    (UInt64.toNat_toUInt32 n).trans (Nat.mod_eq_of_lt (by omega))
  have htwice : 2 * n.toUInt32.toBitVec.toNat < 2 ^ 32 := by omega
  exact (BitVec.toInt_eq_toNat_of_lt htwice).trans (congrArg Nat.cast hword)

/-- The comparison of the cut number comes out right for the number itself. -/
theorem evalRel_cut_iff (rel : RelExpression) (n : UInt64) :
    (rel.evalRel n.toUInt32.toInt32 = true ↔ rel.Relates n.toNat) ↔
      n.toNat < 2 ^ 31 ∨ rel.Passes (cutToInt n) := by
  rw [rel.evalRel_iff]
  by_cases hsmall : n.toNat < 2 ^ 31
  · refine iff_of_true ?_ (.inl hsmall)
    rw [← cutToInt, cutToInt_of_lt hsmall]
  · have hlarge := RelExpression.relates_iff_of_passes (rel.passes_of_le (n := n.toNat) (by omega))
    rw [hlarge, or_iff_right hsmall]
    exact ⟨RelExpression.passes_of_relates_iff, RelExpression.relates_iff_of_passes⟩

/-- **Searching by size.** The outcome is the one for the true size, or the true number of megabytes,
if and only if that number is below `2 ^ 31` or, cut to an `int`, lies beyond the bounds as well. -/
theorem searchesTrueSize_iff (rel : RelExpression) (file : ExpFileEntry) :
    (((Expression.size rel).eval file = true ↔ rel.Relates file.fileSize.toNat) ↔
        file.fileSize.toNat < 2 ^ 31 ∨ rel.Passes (cutToInt file.fileSize)) ∧
      (((Expression.sizeMB rel).eval file = true ↔
          rel.Relates (file.fileSize.toNat / (1024 * 1024) : Nat)) ↔
        file.fileSize.toNat / (1024 * 1024) < 2 ^ 31 ∨
          rel.Passes (cutToInt (file.fileSize / (1024 * 1024)))) := by
  refine ⟨evalRel_cut_iff rel file.fileSize, ?_⟩
  have hmega : (file.fileSize / (1024 * 1024)).toNat = file.fileSize.toNat / (1024 * 1024) := by
    rw [UInt64.toNat_div]
    rfl
  rw [← hmega]
  exact evalRel_cut_iff rel (file.fileSize / (1024 * 1024))

/-- A file of three gigabytes, and a search for files of 1000 bytes or more. -/
theorem searchesTrueSize_counterexample :
    ¬ ∀ (rel : RelExpression) (file : ExpFileEntry),
      (Expression.size rel).eval file = true ↔ rel.Relates file.fileSize.toNat := by
  intro hclaim
  let file : ExpFileEntry :=
    ⟨[], 3221225472, 0, 0, [], ⟨List.replicate 20 0, List.length_replicate⟩⟩
  have hsize := (hclaim ⟨.smallerEquals, 1000, 1000⟩ file).mpr
  have hrelates : (1000 : Int) ≤ 3221225472 := by decide
  exact absurd (hsize hrelates) (by decide)

end RetroShare.RegularExpression
