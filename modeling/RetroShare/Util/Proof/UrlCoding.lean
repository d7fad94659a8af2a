import RetroShare.Util.RsUrl

/-!
# Percent encoding and decimal numbers

What `RsUrl` prints is read back: every encoded text by the decoder, and every port number by the
scanner. The characters of an encoded text are none of the separators.
-/

namespace RetroShare.RsUrl

open Search

/-! ### Classes of characters -/

theorem isDigit_iff {c : UInt8} : isDigit c = true ↔ 48 ≤ c.toNat ∧ c.toNat ≤ 57 := by
  simp only [isDigit, Bool.and_eq_true, decide_eq_true_eq, UInt8.le_iff_toNat_le]
  rfl

theorem isAlnum_iff {c : UInt8} : isAlnum c = true ↔ (48 ≤ c.toNat ∧ c.toNat ≤ 57) ∨
    (65 ≤ c.toNat ∧ c.toNat ≤ 90) ∨ (97 ≤ c.toNat ∧ c.toNat ≤ 122) := by
  simp only [isAlnum, Bool.or_eq_true, Bool.and_eq_true, decide_eq_true_eq, isDigit_iff,
    UInt8.le_iff_toNat_le, or_assoc]
  rfl

theorem isSpace_iff {c : UInt8} :
    isSpace c = true ↔ c.toNat = 32 ∨ (9 ≤ c.toNat ∧ c.toNat ≤ 13) := by
  simp only [isSpace, Bool.or_eq_true, Bool.and_eq_true, decide_eq_true_eq, UInt8.le_iff_toNat_le,
    ← UInt8.toNat_inj]
  rfl

/-! ### Percent encoding -/

theorem hexDigit_spec : ∀ k < 16, hexValue (hexDigit k) = some k ∧ isSpace (hexDigit k) = false ∧
    hexDigit k ≠ '-'.toUInt8 ∧ hexDigit k ≠ '+'.toUInt8 := by
  decide

theorem decodeFrom_cons_of_ne {c : UInt8} (hc : c ≠ percent) (str : Str) :
    decodeFrom (c :: str) = (decodeFrom str).map (c :: ·) := by
  match str with
  | [] => rfl
  | [_] => rfl
  | high :: low :: str =>
      rw [decodeFrom, if_neg hc]
      cases decodeFrom (high :: low :: str) <;> rfl

theorem stoi16_hexDigits (c : UInt8) :
    stoi16 [hexDigit (c.toNat / 16), hexDigit (c.toNat % 16)] = some (c.toNat : Int) := by
  have hlt := c.toNat_lt
  obtain ⟨hhigh, hspace, hminus, hplus⟩ := hexDigit_spec (c.toNat / 16) (by omega)
  have hlow := (hexDigit_spec (c.toNat % 16) (by omega)).1
  unfold stoi16
  simp [List.dropWhile_cons_of_neg, hspace, hminus, hplus, hhigh, hlow]
  omega

theorem decodeFrom_encoded (c : UInt8) (str : Str) :
    decodeFrom (percent :: hexDigit (c.toNat / 16) :: hexDigit (c.toNat % 16) :: str) =
      (decodeFrom str).map (c :: ·) := by
  have hcode : UInt8.ofInt c.toNat = c := by
    have hlt := c.toNat_lt
    calc
      UInt8.ofInt c.toNat = UInt8.ofNat ((c.toNat : Int) % 2 ^ 8).toNat := rfl
      _ = UInt8.ofNat c.toNat := congrArg UInt8.ofNat (by omega)
      _ = c := UInt8.ofNat_toNat
  rw [decodeFrom, if_pos rfl, stoi16_hexDigits]
  cases hstr : decodeFrom str with
  | none => rfl
  | some decoded => exact congrArg (fun code => some (code :: decoded)) hcode

section Encode

variable {ignoreChars : Str}

theorem urlEncode_cons (c : UInt8) (str : Str) : urlEncode (c :: str) ignoreChars =
    (if isUnreserved c || ignoreChars.contains c then [c]
      else [percent, hexDigit (c.toNat / 16), hexDigit (c.toNat % 16)]) ++
        urlEncode str ignoreChars :=
  List.flatMap_cons

theorem isUnreserved_percent : isUnreserved percent = false := by decide

/-- A character is kept only if it is not the percent sign. -/
theorem ne_percent_of_kept (hignore : percent ∉ ignoreChars) {c : UInt8}
    (hkept : (isUnreserved c || ignoreChars.contains c) = true) : c ≠ percent := by
  rintro rfl
  rw [isUnreserved_percent, Bool.false_or, List.contains_iff_mem] at hkept
  exact hignore hkept

theorem decodeFrom_urlEncode (hignore : percent ∉ ignoreChars) (str : Str) :
    decodeFrom (urlEncode str ignoreChars) = some str := by
  induction str with
  | nil => rfl
  | cons c str ih =>
      rw [urlEncode_cons]
      split
      · next hkept =>
          rw [List.singleton_append, decodeFrom_cons_of_ne (ne_percent_of_kept hignore hkept), ih]
          rfl
      · calc
          _ = (decodeFrom (urlEncode str ignoreChars)).map (c :: ·) := decodeFrom_encoded c _
          _ = some (c :: str) := by rw [ih]; rfl

/-- **Decoding undoes encoding**, whichever characters are left alone. -/
theorem urlDecode_urlEncode (hignore : percent ∉ ignoreChars) (str : Str) :
    urlDecode (urlEncode str ignoreChars) = some str := by
  have hne : urlEncode str ignoreChars ≠ [percent] := by
    intro heq
    cases str with
    | nil => cases heq
    | cons c str =>
        rw [urlEncode_cons] at heq
        split at heq
        · next hkept => exact ne_percent_of_kept hignore hkept (List.cons.inj heq).1
        · cases heq
  unfold urlDecode
  rw [if_neg hne]
  exact decodeFrom_urlEncode hignore str

theorem isUnreserved_hexDigit {n : Nat} (hn : n < 16) : isUnreserved (hexDigit n) = true := by
  have hall : ∀ n < 16, isUnreserved (hexDigit n) = true := by decide
  exact hall n hn

/-- The characters of an encoded text. -/
theorem mem_urlEncode {str : Str} {c : UInt8} (hmem : c ∈ urlEncode str ignoreChars) :
    isUnreserved c = true ∨ c = percent ∨ c ∈ ignoreChars := by
  obtain ⟨original, _, hc⟩ := List.mem_flatMap.mp hmem
  split at hc
  · next hkept =>
      cases List.mem_singleton.mp hc
      rw [Bool.or_eq_true, List.contains_iff_mem] at hkept
      exact hkept.imp_right .inr
  · have hbyte := original.toNat_lt
    simp only [List.mem_cons, List.not_mem_nil, or_false] at hc
    rcases hc with rfl | rfl | rfl
    · exact .inr (.inl rfl)
    · exact .inl (isUnreserved_hexDigit (by omega))
    · exact .inl (isUnreserved_hexDigit (Nat.mod_lt _ (by decide)))

theorem urlEncode_eq_nil {str : Str} : urlEncode str ignoreChars = [] ↔ str = [] := by
  constructor
  · intro hnil
    cases str with
    | nil => rfl
    | cons c str =>
        rw [urlEncode_cons] at hnil
        split at hnil <;> cases hnil
  · rintro rfl
    rfl

end Encode

/-! ### Decimal numbers -/

theorem isDigit_ofNat {digit : Nat} (hdigit : digit < 10) :
    isDigit (UInt8.ofNat (48 + digit)) = true ∧ (UInt8.ofNat (48 + digit)).toNat - 48 = digit := by
  have hall : ∀ digit < 10, isDigit (UInt8.ofNat (48 + digit)) = true ∧
      (UInt8.ofNat (48 + digit)).toNat - 48 = digit := by
    decide
  exact hall digit hdigit

theorem isDigit_of_mem_decimal {n : Nat} {c : UInt8} (hmem : c ∈ decimal n) :
    isDigit c = true := by
  unfold decimal at hmem
  split at hmem
  · cases List.mem_singleton.mp hmem
    rfl
  · obtain ⟨digit, hdigit, rfl⟩ := List.mem_map.mp hmem
    have hlt := Nat.digits_lt_base (by decide : 1 < 10) (List.mem_reverse.mp hdigit)
    exact (isDigit_ofNat hlt).1

theorem decimal_ne_nil (n : Nat) : decimal n ≠ [] := by
  unfold decimal
  split
  · exact List.cons_ne_nil _ _
  · next hn => simpa [Nat.digits_eq_nil_iff_eq_zero] using hn

theorem ofDecimal_decimal (n : Nat) : ofDecimal (decimal n) = n := by
  unfold decimal
  split
  · next hn =>
      subst hn
      rfl
  · have hback : ∀ digit ∈ Nat.digits 10 n,
        ((fun c : UInt8 => c.toNat - 48) ∘ fun digit => UInt8.ofNat (48 + digit)) digit =
          id digit := by
      intro digit hdigit
      exact (isDigit_ofNat (Nat.digits_lt_base (by decide : 1 < 10) hdigit)).2
    unfold ofDecimal
    rw [← List.map_reverse, List.reverse_reverse, List.map_map, List.map_congr_left hback,
      List.map_id]
    exact Nat.ofDigits_digits 10 n

theorem scanPort_of_ne {str : Str} (hhead : str.head? ≠ some portSeparator) :
    scanPort str = none := by
  unfold scanPort
  exact if_neg hhead

/-- A printed port is read back, whatever comes after its digits. -/
theorem scanPort_portText (port : UInt16) {rest : Str} (hrest : ∀ c ∈ rest.head?, ¬isDigit c) :
    scanPort (portSeparator :: (decimal port.toNat ++ rest)) = some port := by
  have htake : (decimal port.toNat ++ rest).takeWhile isDigit = decimal port.toNat := by
    rw [List.takeWhile_append_of_pos fun c hc => isDigit_of_mem_decimal hc]
    cases rest with
    | nil => simp
    | cons c rest => simp [hrest c rfl]
  obtain ⟨first, digits, hdecimal⟩ := List.exists_cons_of_ne_nil (decimal_ne_nil port.toNat)
  have hdigit : isDigit first = true :=
    isDigit_of_mem_decimal (hdecimal ▸ List.mem_cons_self)
  have hfirst : isSpace first = false ∧ first ≠ '-'.toUInt8 ∧ first ≠ '+'.toUInt8 := by
    have hcode := isDigit_iff.mp hdigit
    refine ⟨Bool.eq_false_iff.mpr fun hspace => ?_, ?_, ?_⟩
    · have := isSpace_iff.mp hspace
      omega
    · rintro rfl
      exact absurd hcode.1 (by decide)
    · rintro rfl
      exact absurd hcode.1 (by decide)
  have hsmall : ¬2 ^ 64 ≤ port.toNat := by
    have := port.toNat_lt
    omega
  have hskip : (decimal port.toNat ++ rest).dropWhile isSpace = decimal port.toNat ++ rest := by
    rw [hdecimal, List.cons_append, List.dropWhile_cons, hfirst.1]
    rfl
  have hsign : (decimal port.toNat ++ rest).head? = some first := by
    rw [hdecimal]
    rfl
  unfold scanPort
  rw [List.head?_cons, if_pos rfl]
  dsimp only [List.tail_cons]
  rw [hskip, hsign]
  simp only [Option.some.injEq, hfirst.2.1, hfirst.2.2, decide_false, Bool.false_or, if_false,
    Bool.false_eq_true]
  rw [htake, if_neg (decimal_ne_nil _), ofDecimal_decimal, if_neg hsmall]
  exact congrArg some (UInt16.ofNat_toNat)

end RetroShare.RsUrl
