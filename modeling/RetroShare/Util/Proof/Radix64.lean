import Mathlib.Data.List.GetD
import RetroShare.Util.Radix64

/-!
# Radix64 round trip
-/

namespace RetroShare.Radix64

/-- A character of the alphabet, or padding. -/
def IsRadix (c : UInt8) : Prop := c ∈ bintoascTable ∨ c = pad

theorem toNat_bintoascTable : bintoascTable.map UInt8.toNat =
    List.range' 65 26 ++ List.range' 97 26 ++ List.range' 48 10 ++ [43, 47] := by
  rfl

theorem length_bintoascTable : bintoascTable.length = 64 := by
  calc
    bintoascTable.length = (bintoascTable.map UInt8.toNat).length := by rw [List.length_map]
    _ = 64 := congrArg List.length toNat_bintoascTable

theorem nodup_bintoascTable : bintoascTable.Nodup := by
  have hcodes : (bintoascTable.map UInt8.toNat).Nodup := by
    rw [toNat_bintoascTable]
    decide
  exact hcodes.of_map _

/-- The alphabet: capitals, small letters, digits and two more. -/
theorem toNat_of_mem_table {c : UInt8} (hmem : c ∈ bintoascTable) :
    (65 ≤ c.toNat ∧ c.toNat ≤ 90) ∨ (97 ≤ c.toNat ∧ c.toNat ≤ 122) ∨
      (48 ≤ c.toNat ∧ c.toNat ≤ 57) ∨ c.toNat = 43 ∨ c.toNat = 47 := by
  have hcode := List.mem_map_of_mem (f := UInt8.toNat) hmem
  rw [toNat_bintoascTable] at hcode
  simp only [List.mem_append, List.mem_range'_1, List.mem_cons, List.not_mem_nil, or_false] at hcode
  omega

theorem bintoasc_eq_getElem {n : UInt8} (hn : n.toNat < bintoascTable.length) :
    bintoasc n = bintoascTable[n.toNat] := List.getD_eq_getElem _ _ hn

theorem bintoasc_mem {n : UInt8} (hn : n.toNat < 64) : bintoasc n ∈ bintoascTable := by
  rw [← length_bintoascTable] at hn
  rw [bintoasc_eq_getElem hn]
  exact List.getElem_mem hn

theorem asctobin_bintoasc {n : UInt8} (hn : n.toNat < 64) : asctobin (bintoasc n) = some n := by
  have hmem := bintoasc_mem hn
  rw [← length_bintoascTable] at hn
  rw [bintoasc_eq_getElem hn] at hmem ⊢
  have hindex := nodup_bintoascTable.idxOf_getElem n.toNat hn
  rw [List.idxOf_eq_getD_idxOf?] at hindex
  unfold asctobin
  cases hfound : bintoascTable.idxOf? bintoascTable[n.toNat] with
  | none => exact absurd hmem (List.idxOf?_eq_none_iff.mp hfound)
  | some k =>
      rw [hfound, Option.getD_some] at hindex
      rw [hindex, Option.map_some, UInt8.ofNat_toNat]

/-- Characters of the alphabet are neither blank nor padding. -/
theorem of_mem_table {c : UInt8} (hmem : c ∈ bintoascTable) : isBlank c = false ∧ c ≠ pad := by
  have hcode := toNat_of_mem_table hmem
  have hne : ∀ d : UInt8, d.toNat < 43 ∨ d.toNat = 61 → c ≠ d := by
    rintro d hd rfl
    omega
  constructor
  · unfold isBlank
    rw [decide_eq_false (hne _ (.inl (by decide))), decide_eq_false (hne _ (.inl (by decide))),
      decide_eq_false (hne _ (.inl (by decide))), decide_eq_false (hne _ (.inl (by decide)))]
    rfl
  · exact hne pad (.inr rfl)

section Steps

variable {n : UInt8} (hn : n.toNat < 64) (val : UInt8) (text : Str)

include hn

/-! The decoder takes one character of the alphabet. -/

theorem decodeFrom_first :
    decodeFrom 0 val (bintoasc n :: text) = decodeFrom 1 (n <<< 2) text := by
  obtain ⟨hblank, hpad⟩ := of_mem_table (bintoasc_mem hn)
  rw [decodeFrom, hblank, if_neg Bool.false_ne_true, if_neg hpad, asctobin_bintoasc hn]
  rfl

theorem decodeFrom_second : decodeFrom 1 val (bintoasc n :: text) =
    (val ||| ((n >>> 4) &&& (3 : UInt8))) :: decodeFrom 2 ((n <<< 4) &&& (0xf0 : UInt8)) text := by
  obtain ⟨hblank, hpad⟩ := of_mem_table (bintoasc_mem hn)
  rw [decodeFrom, hblank, if_neg Bool.false_ne_true, if_neg hpad, asctobin_bintoasc hn]
  rfl

theorem decodeFrom_third : decodeFrom 2 val (bintoasc n :: text) =
    (val ||| ((n >>> 2) &&& (15 : UInt8))) ::
      decodeFrom 3 ((n <<< 6) &&& (0xc0 : UInt8)) text := by
  obtain ⟨hblank, hpad⟩ := of_mem_table (bintoasc_mem hn)
  rw [decodeFrom, hblank, if_neg Bool.false_ne_true, if_neg hpad, asctobin_bintoasc hn]
  rfl

theorem decodeFrom_fourth : decodeFrom 3 val (bintoasc n :: text) =
    (val ||| (n &&& (0x3f : UInt8))) :: decodeFrom 0 val text := by
  obtain ⟨hblank, hpad⟩ := of_mem_table (bintoasc_mem hn)
  rw [decodeFrom, hblank, if_neg Bool.false_ne_true, if_neg hpad, asctobin_bintoasc hn]
  rfl

end Steps

theorem decodeFrom_pad {idx : Nat} (hidx : idx ≠ 1) (val : UInt8) (text : Str) :
    decodeFrom idx val (pad :: text) = [] := by
  rw [decodeFrom, if_neg (by decide), if_pos rfl, if_neg hidx]

/-! ### Bits -/

theorem masked_lt (n : UInt8) : (n &&& (0o77 : UInt8)).toNat < 64 := by
  rw [UInt8.toNat_and]
  exact Nat.lt_of_le_of_lt Nat.and_le_right (by decide)

section Bits

variable (a b c : UInt8)

theorem sextet1_lt : (sextet1 a).toNat < 64 := masked_lt _

theorem sextet2_lt : (sextet2 a b).toNat < 64 := masked_lt _

theorem sextet3_lt : (sextet3 b c).toNat < 64 := masked_lt _

theorem sextet4_lt : (sextet4 c).toNat < 64 := masked_lt _

theorem byte1 : (sextet1 a <<< 2) ||| ((sextet2 a b >>> 4) &&& (3 : UInt8)) = a := by
  unfold sextet1 sextet2
  apply UInt8.eq_of_toBitVec_eq
  apply BitVec.eq_of_getLsbD_eq
  intro i hi
  interval_cases i <;> simp

theorem byte2 : ((sextet2 a b <<< 4) &&& (0xf0 : UInt8)) |||
    ((sextet3 b c >>> 2) &&& (15 : UInt8)) = b := by
  unfold sextet2 sextet3
  apply UInt8.eq_of_toBitVec_eq
  apply BitVec.eq_of_getLsbD_eq
  intro i hi
  interval_cases i <;> simp

theorem byte3 : ((sextet3 b c <<< 6) &&& (0xc0 : UInt8)) ||| (sextet4 c &&& (0x3f : UInt8)) = c := by
  unfold sextet3 sextet4
  apply UInt8.eq_of_toBitVec_eq
  apply BitVec.eq_of_getLsbD_eq
  intro i hi
  interval_cases i <;> simp

/-- A group that is not full counts as one that is filled up with zeros. -/
theorem sextet_zero : (a <<< 4) &&& (0o60 : UInt8) = sextet2 a 0 ∧
    (b <<< 2) &&& (0o74 : UInt8) = sextet3 b 0 := by
  unfold sextet2 sextet3
  constructor <;>
  · apply UInt8.eq_of_toBitVec_eq
    apply BitVec.eq_of_getLsbD_eq
    intro i hi
    interval_cases i <;> simp

end Bits

/-! ### The round trip -/

/-- **Decoding undoes encoding.** -/
theorem decode_encodeBytes (data : List UInt8) : decode (encodeBytes data) = data := by
  have hall : ∀ val, decodeFrom 0 val (encodeBytes data) = data := by
    induction data using encodeBytes.induct with
    | case1 a b c data ih =>
        intro val
        rw [encodeBytes, decodeFrom_first (sextet1_lt a),
          decodeFrom_second (sextet2_lt a b), decodeFrom_third (sextet3_lt b c),
          decodeFrom_fourth (sextet4_lt c), byte1, byte2, byte3, ih]
    | case2 a b =>
        intro val
        rw [encodeBytes, (sextet_zero a b).2, decodeFrom_first (sextet1_lt a),
          decodeFrom_second (sextet2_lt a b), decodeFrom_third (sextet3_lt b 0), byte1,
          byte2, decodeFrom_pad (by decide)]
    | case3 a =>
        intro val
        rw [encodeBytes, (sextet_zero a 0).1, decodeFrom_first (sextet1_lt a),
          decodeFrom_second (sextet2_lt a 0), byte1, decodeFrom_pad (by decide)]
    | case4 => exact fun _ => rfl
  exact hall 0

theorem isRadix_of_mem_encodeBytes {data : List UInt8} {c : UInt8}
    (hmem : c ∈ encodeBytes data) : IsRadix c := by
  induction data using encodeBytes.induct with
  | case1 a b d data ih =>
      simp only [encodeBytes, List.mem_cons] at hmem
      rcases hmem with rfl | rfl | rfl | rfl | hmem
      · exact .inl (bintoasc_mem (sextet1_lt a))
      · exact .inl (bintoasc_mem (sextet2_lt a b))
      · exact .inl (bintoasc_mem (sextet3_lt b d))
      · exact .inl (bintoasc_mem (sextet4_lt d))
      · exact ih hmem
  | case2 a b =>
      simp only [encodeBytes, (sextet_zero a b).2, List.mem_cons, List.not_mem_nil,
        or_false] at hmem
      rcases hmem with rfl | rfl | rfl | rfl
      · exact .inl (bintoasc_mem (sextet1_lt a))
      · exact .inl (bintoasc_mem (sextet2_lt a b))
      · exact .inl (bintoasc_mem (sextet3_lt b 0))
      · exact .inr rfl
  | case3 a =>
      simp only [encodeBytes, (sextet_zero a 0).1, List.mem_cons, List.not_mem_nil,
        or_false] at hmem
      rcases hmem with rfl | rfl | rfl | rfl
      · exact .inl (bintoasc_mem (sextet1_lt a))
      · exact .inl (bintoasc_mem (sextet2_lt a 0))
      · exact .inr rfl
      · exact .inr rfl
  | case4 => exact absurd hmem List.not_mem_nil

theorem length_encodeBytes (data : List UInt8) :
    (encodeBytes data).length = (data.length + 2) / 3 * 4 := by
  induction data using encodeBytes.induct with
  | case1 a b c data ih =>
      simp only [encodeBytes, List.length_cons, ih]
      omega
  | case2 | case3 | case4 => simp [encodeBytes]

/-! ### White space and the table -/

theorem decodeFrom_filter (text : Str) : ∀ idx val,
    decodeFrom idx val (text.filter fun c => !isBlank c) = decodeFrom idx val text := by
  induction text with
  | nil => exact fun _ _ => rfl
  | cons c text ih =>
      intro idx val
      by_cases hblank : isBlank c = true
      · rw [List.filter_cons_of_neg (by simp [hblank]), ih, decodeFrom, if_pos hblank]
      · rw [List.filter_cons_of_pos (by simp [hblank]), decodeFrom, decodeFrom]
        simp only [hblank, Bool.false_eq_true, ↓reduceIte, ih]

theorem decode_of_filter_eq {spaced : Str} {data : List UInt8}
    (hspaced : spaced.filter (fun c => !isBlank c) = encodeBytes data) : decode spaced = data := by
  calc
    decode spaced = decode (spaced.filter fun c => !isBlank c) := (decodeFrom_filter spaced 0 0).symm
    _ = decode (encodeBytes data) := by rw [hspaced]
    _ = data := decode_encodeBytes data

/-- A byte is its own signed index exactly in the lower half. -/
theorem toInt8_inside_iff (c : UInt8) :
    (0 ≤ c.toInt8.toInt ∧ c.toInt8.toInt < 256) ↔ c < 128 := by
  have hlt := c.toNat_lt
  have hindex : c.toInt8.toInt = (c.toNat : Int).bmod (2 ^ 8) := BitVec.toInt_eq_toNat_bmod c.toBitVec
  have hmiddle : (128 : UInt8).toNat = 128 := rfl
  rw [hindex, UInt8.lt_iff_toNat_lt, hmiddle, Int.bmod_def]
  split <;> omega

/-- The data comes back, whatever white space the text has been given. -/
def RoundTrips (data : List UInt8) : Prop :=
  ∃ text, encode data = some text ∧ decode text = data ∧
    ∀ spaced : Str, spaced.filter (fun c => !isBlank c) = text → decode spaced = data

def IndexesInside (buffer : Str) : Prop :=
  ∀ index ∈ tableIndices buffer, 0 ≤ index ∧ index < 256

theorem roundTrips_iff_size (data : List UInt8) :
    RoundTrips data ↔ (data.length + 2) / 3 * 4 + 1 < 2 ^ 31 := by
  unfold RoundTrips encode
  constructor
  · rintro ⟨text, hencode, _⟩
    by_contra hlarge
    rw [if_neg hlarge] at hencode
    cases hencode
  · intro hsize
    rw [if_pos hsize]
    exact ⟨encodeBytes data, rfl, decode_encodeBytes data, fun _ => decode_of_filter_eq⟩

theorem indexesInside_iff (buffer : Str) :
    IndexesInside buffer ↔ ∀ c ∈ buffer.takeWhile (· ≠ pad), c < 128 := by
  unfold IndexesInside
  induction buffer with
  | nil => exact iff_of_true (fun _ h => absurd h List.not_mem_nil) (fun _ h => absurd h List.not_mem_nil)
  | cons c text ih =>
      rw [tableIndices]
      by_cases hpad : c = pad
      · have hblank : isBlank c = false := by rw [hpad]; rfl
        rw [List.takeWhile_cons_of_neg (by simp [hpad]), hblank, if_neg Bool.false_ne_true,
          if_pos hpad]
        exact iff_of_true (fun _ h => absurd h List.not_mem_nil) (fun _ h => absurd h List.not_mem_nil)
      · rw [List.takeWhile_cons_of_pos (by simp [hpad]), if_neg hpad, List.forall_mem_cons, ← ih]
        by_cases hblank : isBlank c = true
        · have hlow : c < 128 := by
            simp only [isBlank, Bool.or_eq_true, decide_eq_true_eq] at hblank
            rcases hblank with ((rfl | rfl) | rfl) | rfl <;> decide
          rw [if_pos hblank, and_iff_right hlow]
        · rw [if_neg hblank, List.forall_mem_cons, toInt8_inside_iff]

/-- **What radix 64 keeps and reads.** Data comes back where the size of its text fits, and the table
is read inside where no byte of the upper half stands in front of the padding. -/
theorem radix64_iff (data : List UInt8) (buffer : Str) :
    RoundTrips data ∧ IndexesInside buffer ↔
      (data.length + 2) / 3 * 4 + 1 < 2 ^ 31 ∧ ∀ c ∈ buffer.takeWhile (· ≠ pad), c < 128 := by
  rw [roundTrips_iff_size, indexesInside_iff]

/-- The first byte of the upper half is looked up at -128. -/
theorem radix64_counterexample :
    ¬∀ (data : List UInt8) (buffer : Str), RoundTrips data ∧ IndexesInside buffer := by
  intro hall
  have hindex := (hall [] [128]).2 (-128) List.mem_cons_self
  exact absurd hindex.1 (by decide)

end RetroShare.Radix64
