import RetroShare.Util.RegularExpression

/-!
# Comparing without regard to case

Two strings agree up to letter case when lowering their letters makes them equal. The search that
ignores case is the plain search of the lowered strings; the equality that ignores case is the plain
one of the strings as they are.
-/

namespace RetroShare.RegularExpression

def lowered (str : List UInt8) : List UInt8 := str.map tolower

/-- Equal up to letter case. -/
def SameLetters (str₁ str₂ : List UInt8) : Prop := lowered str₁ = lowered str₂

instance (str₁ str₂ : List UInt8) : Decidable (SameLetters str₁ str₂) :=
  inferInstanceAs (Decidable (lowered str₁ = lowered str₂))

def IsLetter (ch : UInt8) : Prop := (65 ≤ ch ∧ ch ≤ 90) ∨ (97 ≤ ch ∧ ch ≤ 122)

def toupper (ch : UInt8) : UInt8 := if 97 ≤ ch ∧ ch ≤ 122 then ch - 32 else ch

/-! ### Letters -/

theorem toNat_tolower (ch : UInt8) :
    (tolower ch).toNat = if 65 ≤ ch.toNat ∧ ch.toNat ≤ 90 then ch.toNat + 32 else ch.toNat := by
  have hlt := ch.toNat_lt
  unfold tolower
  simp only [UInt8.le_iff_toNat_le]
  change (if 65 ≤ ch.toNat ∧ ch.toNat ≤ 90 then ch + 32 else ch).toNat = _
  split
  · rw [UInt8.toNat_add]
    change (ch.toNat + 32) % 256 = ch.toNat + 32
    omega
  · rfl

theorem toNat_toupper (ch : UInt8) :
    (toupper ch).toNat = if 97 ≤ ch.toNat ∧ ch.toNat ≤ 122 then ch.toNat - 32 else ch.toNat := by
  have hlt := ch.toNat_lt
  unfold toupper
  simp only [UInt8.le_iff_toNat_le]
  change (if 97 ≤ ch.toNat ∧ ch.toNat ≤ 122 then ch - 32 else ch).toNat = _
  split
  · rw [UInt8.toNat_sub]
    change (2 ^ 8 - 32 + ch.toNat) % 2 ^ 8 = ch.toNat - 32
    omega
  · rfl

theorem isLetter_iff {ch : UInt8} : IsLetter ch ↔
    (65 ≤ ch.toNat ∧ ch.toNat ≤ 90) ∨ (97 ≤ ch.toNat ∧ ch.toNat ≤ 122) := by
  unfold IsLetter
  simp only [UInt8.le_iff_toNat_le]
  rfl

theorem tolower_toupper (ch : UInt8) : tolower (toupper ch) = tolower ch := by
  apply UInt8.toNat_inj.mp
  rw [toNat_tolower, toNat_toupper, toNat_tolower]
  split_ifs <;> omega

theorem tolower_tolower (ch : UInt8) : tolower (tolower ch) = tolower ch := by
  apply UInt8.toNat_inj.mp
  rw [toNat_tolower, toNat_tolower]
  split_ifs <;> omega

/-- A letter in upper case is no lowered character. -/
theorem toupper_ne_tolower {ch : UInt8} (hletter : IsLetter ch) (other : UInt8) :
    toupper ch ≠ tolower other := by
  intro heq
  have hcode := congrArg UInt8.toNat heq
  rw [isLetter_iff] at hletter
  rw [toNat_toupper, toNat_tolower] at hcode
  split at hcode <;> split at hcode <;> omega

/-- Where there are no letters there is no case. -/
theorem eq_of_tolower_eq {ch other : UInt8} (hletter : ¬IsLetter ch)
    (heq : tolower other = tolower ch) : other = ch := by
  have hcode := congrArg UInt8.toNat heq
  rw [isLetter_iff] at hletter
  rw [toNat_tolower, toNat_tolower] at hcode
  apply UInt8.toNat_inj.mp
  split at hcode <;> split at hcode <;> omega

theorem lowered_lowered (str : List UInt8) : lowered (lowered str) = lowered str := by
  unfold lowered
  rw [List.map_map]
  exact List.map_congr_left fun ch _ => tolower_tolower ch

theorem lowered_map_toupper (str : List UInt8) : lowered (str.map toupper) = lowered str := by
  unfold lowered
  rw [List.map_map]
  exact List.map_congr_left fun ch _ => tolower_toupper ch

theorem SameLetters.eq {str other : List UInt8} (hsame : SameLetters other str)
    (hletters : ∀ ch ∈ str, ¬IsLetter ch) : other = str := by
  unfold SameLetters lowered at hsame
  induction str generalizing other with
  | nil => exact List.map_eq_nil_iff.mp hsame
  | cons ch str ih =>
      obtain ⟨ch', other', rfl, hch, hother⟩ := List.map_eq_cons_iff.mp hsame
      rw [List.forall_mem_cons] at hletters
      rw [eq_of_tolower_eq hletters.1 hch, ih hother hletters.2]

/-! ### Searching -/

theorem startsWith_lowered (str term : List UInt8) :
    startsWith compareCharIC str term = startsWith (· == ·) (lowered str) (lowered term) := by
  induction str, term using startsWith.induct with
  | case1 str => rw [startsWith, lowered, lowered, List.map_nil, startsWith]
  | case2 ch term => rfl
  | case3 ch str ch' term ih =>
      rw [startsWith, ih]
      rfl

theorem search_lowered (str term : List UInt8) :
    lowered (search compareCharIC str term) = search (· == ·) (lowered str) (lowered term) := by
  induction str with
  | nil => rfl
  | cons ch str ih =>
      have hhead := startsWith_lowered (ch :: str) term
      rw [search, hhead]
      unfold lowered at *
      rw [List.map_cons, search]
      split
      · rw [List.map_cons]
      · exact ih

/-- **The search that ignores case** is the plain one of the lowered strings. -/
theorem strContains_lowered (str term : List UInt8) :
    strContains str term true = strContains (lowered str) (lowered term) false := by
  unfold strContains
  rw [if_pos rfl, if_neg Bool.false_ne_true, ← search_lowered]
  unfold lowered
  rw [List.isEmpty_map]

/-! ### The law -/

/-- What an expression that ignores case owes a string: the same outcome whatever the case of its
letters and of those of the terms, and equality up to letter case. -/
def IgnoresCaseAt (op : StringOperator) (terms : List (List UInt8)) (str : List UInt8) : Prop :=
  (∀ (terms' : List (List UInt8)) (str' : List UInt8),
    terms'.map lowered = terms.map lowered → SameLetters str' str →
    StringExpression.evalStr ⟨op, terms', true⟩ str' =
      StringExpression.evalStr ⟨op, terms, true⟩ str) ∧
  (op = .equalsString → (StringExpression.evalStr ⟨op, terms, true⟩ str = true ↔
    ∃ term ∈ terms, SameLetters term str))

section Outcomes

variable {terms : List (List UInt8)} {str : List UInt8}

theorem evalStr_containsAll : StringExpression.evalStr ⟨.containsAllStrings, terms, true⟩ str =
    (terms.map lowered).all fun term => strContains (lowered str) term false := by
  rw [List.all_map]
  exact congrArg terms.all (funext fun term => strContains_lowered str term)

theorem evalStr_containsAny : StringExpression.evalStr ⟨.containsAnyStrings, terms, true⟩ str =
    (terms.map lowered).any fun term => strContains (lowered str) term false := by
  rw [List.any_map]
  exact congrArg terms.any (funext fun term => strContains_lowered str term)

theorem evalStr_equals : StringExpression.evalStr ⟨.equalsString, terms, true⟩ str = true ↔
    str ∈ terms := by
  unfold StringExpression.evalStr strEquals
  simp only [List.any_eq_true, beq_iff_eq, exists_eq_right']

theorem exists_sameLetters_iff :
    (∃ term ∈ terms, SameLetters term str) ↔ lowered str ∈ terms.map lowered := by
  rw [List.mem_map]
  exact exists_congr fun term => Iff.rfl

/-- Searches keep the law. -/
theorem ignoresCaseAt_of_ne {op : StringOperator} (hop : op ≠ .equalsString) :
    IgnoresCaseAt op terms str := by
  refine ⟨fun terms' str' hterms hstr => ?_, fun heq => absurd heq hop⟩
  unfold SameLetters at hstr
  cases op with
  | containsAllStrings => rw [evalStr_containsAll, evalStr_containsAll, hterms, hstr]
  | containsAnyStrings => rw [evalStr_containsAny, evalStr_containsAny, hterms, hstr]
  | equalsString => exact absurd rfl hop

/-- Without letters, and without a term that differs by case at most, equality keeps it, too. -/
theorem ignoresCaseAt_equals
    (hplain : (∀ ch ∈ str, ¬IsLetter ch) ∨ ∀ term ∈ terms, ¬SameLetters term str) :
    IgnoresCaseAt .equalsString terms str := by
  have hequals : ∀ (terms' : List (List UInt8)) (str' : List UInt8),
      terms'.map lowered = terms.map lowered → SameLetters str' str →
      (str' ∈ terms' ↔ lowered str ∈ terms.map lowered) := by
    intro terms' str' hterms hstr
    unfold SameLetters at hstr
    rw [← hterms, ← hstr]
    refine ⟨List.mem_map_of_mem, fun hmem => ?_⟩
    cases hplain with
    | inl hletters =>
        obtain ⟨term, hterm, hlowered⟩ := List.mem_map.mp hmem
        rw [hstr] at hlowered
        rwa [SameLetters.eq hstr hletters, ← SameLetters.eq hlowered hletters]
    | inr hnone =>
        rw [hterms, hstr] at hmem
        obtain ⟨term, hterm, hsame⟩ := exists_sameLetters_iff.mpr hmem
        exact absurd hsame (hnone term hterm)
  refine ⟨fun terms' str' hterms hstr => ?_, fun _ => ?_⟩
  · rw [Bool.eq_iff_iff, evalStr_equals, evalStr_equals, hequals terms' str' hterms hstr,
      hequals terms str rfl rfl]
  · rw [evalStr_equals, exists_sameLetters_iff, hequals terms str rfl rfl]

/-- A letter and a term that has it in some case: lowering the terms and raising the string parts
them. -/
theorem not_ignoresCaseAt {ch : UInt8} (hmem : ch ∈ str) (hletter : IsLetter ch)
    {term : List UInt8} (hterm : term ∈ terms) (hsame : SameLetters term str) :
    ¬IgnoresCaseAt .equalsString terms str := by
  intro hlaw
  have hterms : (terms.map lowered).map lowered = terms.map lowered := by
    rw [List.map_map]
    exact List.map_congr_left fun term _ => lowered_lowered term
  have hlow := hlaw.1 (terms.map lowered) (lowered str) hterms (lowered_lowered str)
  have hhigh := hlaw.1 (terms.map lowered) (str.map toupper) hterms (lowered_map_toupper str)
  have htrue : StringExpression.evalStr ⟨.equalsString, terms.map lowered, true⟩ (lowered str) = true :=
    evalStr_equals.mpr (exists_sameLetters_iff.mp ⟨term, hterm, hsame⟩)
  rw [← hlow, htrue, evalStr_equals] at hhigh
  obtain ⟨other, _, hother⟩ := List.mem_map.mp hhigh
  have hupper : toupper ch ∈ lowered other := hother ▸ List.mem_map_of_mem hmem
  obtain ⟨low, _, heq⟩ := List.mem_map.mp hupper
  exact toupper_ne_tolower hletter low heq.symm

end Outcomes

/-- **Where the flag is honoured:** in every search, and in an equality with a string without letters
or that no term equals up to case. -/
theorem ignoresCaseAt_iff (op : StringOperator) (terms : List (List UInt8)) (str : List UInt8) :
    IgnoresCaseAt op terms str ↔ op ≠ .equalsString ∨ (∀ ch ∈ str, ¬IsLetter ch) ∨
      ∀ term ∈ terms, ¬SameLetters term str := by
  by_cases hop : op = .equalsString
  · subst hop
    rw [or_iff_right (not_not_intro rfl)]
    refine ⟨fun hlaw => ?_, ignoresCaseAt_equals⟩
    by_contra hnot
    rw [not_or] at hnot
    obtain ⟨hletters, hterms⟩ := hnot
    push Not at hletters hterms
    obtain ⟨ch, hmem, hletter⟩ := hletters
    obtain ⟨term, hterm, hsame⟩ := hterms
    exact not_ignoresCaseAt hmem hletter hterm hsame hlaw
  · exact iff_of_true (ignoresCaseAt_of_ne hop) (.inl hop)

/-- `A` is not found equal to `a`. -/
theorem ignoresCaseAt_counterexample : ¬∀ op terms str, IgnoresCaseAt op terms str := by
  intro hall
  have hequal := ((hall .equalsString [[97]] [65]).2 rfl).mpr ⟨[97], List.mem_cons_self, by decide⟩
  exact absurd hequal (by decide)

end RetroShare.RegularExpression
