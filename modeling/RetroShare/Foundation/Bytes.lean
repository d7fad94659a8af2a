import Mathlib.Tactic
import Mathlib.Data.List.GetD

/-!
# Bytes in memory

Numbers as big-endian bytes, and a memory that is read and written in runs of bytes. `Holds` says
what a run is; it splits along concatenation, which is how a reader that goes field by field meets
a writer that does the same.
-/

namespace RetroShare.Bytes

/-- The low `width` bytes of `n`, most significant first. -/
def bigEndian : Nat → Nat → List UInt8
  | 0, _ => []
  | width + 1, n => UInt8.ofNat (n / 256 ^ width) :: bigEndian width n

def ofBigEndian : List UInt8 → Nat
  | [] => 0
  | byte :: rest => byte.toNat * 256 ^ rest.length + ofBigEndian rest

@[simp] theorem length_bigEndian (width n : Nat) : (bigEndian width n).length = width := by
  induction width with
  | zero => rfl
  | succ width ih => rw [bigEndian, List.length_cons, ih]

theorem ofBigEndian_bigEndian (width n : Nat) :
    ofBigEndian (bigEndian width n) = n % 256 ^ width := by
  induction width with
  | zero => simp [bigEndian, ofBigEndian, Nat.mod_one]
  | succ width ih =>
      have hbyte : (UInt8.ofNat (n / 256 ^ width)).toNat = n / 256 ^ width % 256 := by simp
      calc
        ofBigEndian (bigEndian (width + 1) n) =
            n / 256 ^ width % 256 * 256 ^ width + n % 256 ^ width := by
          rw [bigEndian, ofBigEndian, length_bigEndian, hbyte, ih]
        _ = n % 256 ^ width + 256 ^ width * (n / 256 ^ width % 256) := by
          rw [Nat.mul_comm, Nat.add_comm]
        _ = n % 256 ^ (width + 1) := (Nat.mod_pow_succ).symm

/-- Only the low bytes of a number are written. -/
theorem bigEndian_mod (width n : Nat) :
    ∀ count ≤ width, bigEndian count (n % 256 ^ width) = bigEndian count n := by
  intro count hcount
  induction count with
  | zero => rfl
  | succ count ih =>
      have hsplit : 256 ^ width = 256 ^ count * 256 ^ (width - count) := by
        rw [← Nat.pow_add]
        congr 1
        omega
      have hdvd : 256 ∣ 256 ^ (width - count) := dvd_pow_self 256 (by omega)
      have hbyte : n % 256 ^ width / 256 ^ count % 256 = n / 256 ^ count % 256 := by
        rw [hsplit, Nat.mod_mul_right_div_self, Nat.mod_mod_of_dvd _ hdvd]
      have hsame : UInt8.ofNat (n % 256 ^ width / 256 ^ count) = UInt8.ofNat (n / 256 ^ count) := by
        apply UInt8.toNat_inj.mp
        simpa using hbyte
      rw [bigEndian, bigEndian, hsame, ih (by omega)]

theorem ofBigEndian_lt (bytes : List UInt8) : ofBigEndian bytes < 256 ^ bytes.length := by
  induction bytes with
  | nil => simp [ofBigEndian]
  | cons byte rest ih =>
      have hbyte := byte.toNat_lt
      have hhead : (byte.toNat + 1) * 256 ^ rest.length ≤ 256 * 256 ^ rest.length :=
        Nat.mul_le_mul_right _ hbyte
      rw [ofBigEndian, List.length_cons, Nat.pow_succ']
      rw [Nat.add_mul, Nat.one_mul] at hhead
      omega

/-! ### Memory -/

abbrev Memory := Nat → UInt8

/-- The memory with `bytes` written from `offset` on. -/
def blit (mem : Memory) (offset : Nat) (bytes : List UInt8) : Memory :=
  fun i => if offset ≤ i ∧ i < offset + bytes.length then bytes.getD (i - offset) 0 else mem i

/-- The `count` bytes from `offset` on. -/
def slice (mem : Memory) (offset count : Nat) : List UInt8 :=
  (List.range count).map fun i => mem (offset + i)

@[simp] theorem length_slice (mem : Memory) (offset count : Nat) :
    (slice mem offset count).length = count := by
  simp [slice]

theorem slice_add (mem : Memory) (offset m n : Nat) :
    slice mem offset (m + n) = slice mem offset m ++ slice mem (offset + m) n := by
  simp [slice, List.range_add, Nat.add_assoc]

/-- `bytes` stand in memory from `offset` on. -/
def Holds (mem : Memory) (offset : Nat) (bytes : List UInt8) : Prop :=
  slice mem offset bytes.length = bytes

theorem holds_append_iff {mem : Memory} {offset : Nat} {first second : List UInt8} :
    Holds mem offset (first ++ second) ↔
      Holds mem offset first ∧ Holds mem (offset + first.length) second := by
  unfold Holds
  rw [List.length_append, slice_add]
  constructor
  · intro heq
    exact List.append_inj heq (length_slice _ _ _)
  · rintro ⟨hfirst, hsecond⟩
    rw [hfirst, hsecond]

theorem blit_append (mem : Memory) (offset : Nat) (first second : List UInt8) :
    blit (blit mem offset first) (offset + first.length) second =
      blit mem offset (first ++ second) := by
  funext i
  unfold blit
  rw [List.length_append]
  by_cases hsecond : offset + first.length ≤ i ∧ i < offset + first.length + second.length
  · rw [if_pos hsecond, if_pos (by omega), List.getD_append_right _ _ _ _ (by omega)]
    congr 1
    omega
  · rw [if_neg hsecond]
    by_cases hfirst : offset ≤ i ∧ i < offset + first.length
    · rw [if_pos hfirst, if_pos (by omega), List.getD_append _ _ _ _ (by omega)]
    · rw [if_neg hfirst, if_neg (by omega)]

@[simp] theorem blit_nil (mem : Memory) (offset : Nat) : blit mem offset [] = mem := by
  funext i
  exact if_neg (by simp)

theorem blit_of_outside (mem : Memory) {offset i : Nat} {bytes : List UInt8}
    (hout : ¬ (offset ≤ i ∧ i < offset + bytes.length)) : blit mem offset bytes i = mem i :=
  if_neg hout

theorem holds_blit (mem : Memory) (offset : Nat) (bytes : List UInt8) :
    Holds (blit mem offset bytes) offset bytes := by
  unfold Holds slice
  apply List.ext_getElem
  · simp
  · intro i hi hi'
    rw [List.getElem_map, List.getElem_range]
    unfold blit
    rw [if_pos ⟨Nat.le_add_right _ _, by omega⟩, Nat.add_sub_cancel_left,
      List.getD_eq_getElem _ _ hi']

/-! ### Unchanged bytes -/

/-- The memories hold the same bytes from `start` on and before `stop`. -/
def Agree (mem mem' : Memory) (start stop : Nat) : Prop :=
  ∀ i, start ≤ i → i < stop → mem i = mem' i

/-- From one memory to the other, only bytes from `start` on and before `stop` have changed. -/
def KeepsOutside (mem mem' : Memory) (start stop : Nat) : Prop :=
  ∀ i, i < start ∨ stop ≤ i → mem' i = mem i

theorem slice_congr {mem mem' : Memory} {offset count : Nat}
    (hagree : Agree mem mem' offset (offset + count)) :
    slice mem offset count = slice mem' offset count := by
  refine List.map_congr_left fun i hi => hagree _ (Nat.le_add_right _ _) ?_
  rw [List.mem_range] at hi
  omega

theorem Holds.congr {mem mem' : Memory} {offset : Nat} {bytes : List UInt8}
    (hholds : Holds mem' offset bytes) (hagree : Agree mem mem' offset (offset + bytes.length)) :
    Holds mem offset bytes := (slice_congr hagree).trans hholds

theorem keepsOutside_blit (mem : Memory) (offset : Nat) (bytes : List UInt8) :
    KeepsOutside mem (blit mem offset bytes) offset (offset + bytes.length) :=
  fun _ hout => blit_of_outside mem (by omega)

theorem KeepsOutside.trans {mem mem' mem'' : Memory} {start middle stop : Nat}
    (hfirst : KeepsOutside mem mem' start middle) (hsecond : KeepsOutside mem' mem'' middle stop)
    (hstart : start ≤ middle) (hstop : middle ≤ stop) : KeepsOutside mem mem'' start stop := by
  intro i hout
  rw [hsecond i (by omega), hfirst i (by omega)]

end RetroShare.Bytes
