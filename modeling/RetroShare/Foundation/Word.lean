import Mathlib.Tactic
import Mathlib.Order.Std
import Mathlib.Data.List.Lex

/-!
# Machine words as naturals

An unsigned word of width `w` is a natural below `2 ^ w`, and the arithmetic wraps. Every bound
proved about a program that computes this way comes down to one question: did the operation wrap?
The lemmas below state the answer for addition and subtraction.
-/

namespace RetroShare.Word

instance linearOrderUInt8 : LinearOrder UInt8 where
  le_refl _ := UInt8.le_refl _
  le_trans _ _ _ := UInt8.le_trans
  le_antisymm _ _ := UInt8.le_antisymm
  le_total _ _ := UInt8.le_total _ _
  lt_iff_le_not_ge _ _ := UInt8.lt_iff_le_and_ne.trans
    ⟨fun h => ⟨h.1, fun hge => h.2 (UInt8.le_antisymm h.1 hge)⟩,
      fun h => ⟨h.1, fun heq => h.2 (heq ▸ UInt8.le_refl _)⟩⟩
  toDecidableLE := inferInstance
  toDecidableLT := inferInstance

/-! Texts, and the two sizes of identifiers, as keys. -/

instance (priority := 2000) transCmpBytes :
    @Std.TransCmp (List UInt8) (@compare _ LinearOrder.toOrd) :=
  inferInstance

instance (priority := 2000) transCmpId16 :
    @Std.TransCmp { bytes : List UInt8 // bytes.length = 16 } (@compare _ LinearOrder.toOrd) :=
  inferInstance

instance (priority := 2000) transCmpId20 :
    @Std.TransCmp { bytes : List UInt8 // bytes.length = 20 } (@compare _ LinearOrder.toOrd) :=
  inferInstance

instance (priority := 2000) lawfulBEqId16 : LawfulBEq { bytes : List UInt8 // bytes.length = 16 } :=
  inferInstance

/-- Conversion to an unsigned word of width `w`. -/
def wrap (w n : Nat) : Nat := n % 2 ^ w

/-- Unsigned subtraction at width `w`. -/
def sub (w a b : Nat) : Nat := (a + (2 ^ w - b % 2 ^ w)) % 2 ^ w

/-- Unsigned addition at width `w`. -/
def add (w a b : Nat) : Nat := (a + b) % 2 ^ w

variable {w a b : Nat}

theorem wrap_lt : wrap w a < 2 ^ w := Nat.mod_lt _ (Nat.two_pow_pos w)

theorem wrap_of_lt (ha : a < 2 ^ w) : wrap w a = a := Nat.mod_eq_of_lt ha

theorem sub_lt : sub w a b < 2 ^ w := Nat.mod_lt _ (Nat.two_pow_pos w)

theorem sub_of_le (hle : b ≤ a) (ha : a < 2 ^ w) : sub w a b = a - b := by
  have hb : b < 2 ^ w := lt_of_le_of_lt hle ha
  have hsum : a + (2 ^ w - b) = (a - b) + 2 ^ w := by omega
  rw [sub, Nat.mod_eq_of_lt hb, hsum, Nat.add_mod_right, Nat.mod_eq_of_lt (by omega)]

/-- A subtraction that borrows lands at the top of the range. -/
theorem sub_of_lt (hlt : a < b) (hb : b < 2 ^ w) : sub w a b = a + 2 ^ w - b := by
  have hsum : a + (2 ^ w - b) = a + 2 ^ w - b := by omega
  rw [sub, Nat.mod_eq_of_lt hb, hsum, Nat.mod_eq_of_lt (by omega)]

theorem add_lt : add w a b < 2 ^ w := Nat.mod_lt _ (Nat.two_pow_pos w)

theorem add_of_lt (hsum : a + b < 2 ^ w) : add w a b = a + b := Nat.mod_eq_of_lt hsum

theorem add_add (w a b c : Nat) : add w (add w a b) c = add w a (b + c) := by
  simp [add, Nat.add_assoc]

theorem add_wrap (w a b : Nat) : add w a (wrap w b) = add w a b := by
  simp [add, wrap]

end RetroShare.Word
