import Mathlib.Data.List.Infix

/-!
# Matching a pattern in a stream

A matcher that keeps only how much of the pattern it has met, and starts again from nothing at a
character that does not go on with it. Such a matcher does not find every occurrence: one that starts
inside a partial match is passed over. What it does find is what is behind pieces of text that each
break off a beginning of the pattern.
-/

namespace RetroShare.StreamMatch

variable {α : Type} [DecidableEq α]

/-- The rest of the text is read with `met` characters of the pattern met before. -/
def restartMatch (pattern : List α) : List α → Nat → Bool
  | [], _ => false
  | c :: text, met =>
      let met := if pattern[met]? = some c then met + 1 else 0
      if met = pattern.length then true else restartMatch pattern text met

/-- A proper beginning of the pattern and a character that does not go on with it. -/
def Broken (pattern piece : List α) : Prop :=
  ∃ met c, met < pattern.length ∧ pattern[met]? ≠ some c ∧ piece = pattern.take met ++ [c]

/-- The text is made of broken pieces, the pattern, and anything else. -/
def Reaches (pattern text : List α) : Prop :=
  ∃ (pieces : List (List α)) (rest : List α), (∀ piece ∈ pieces, Broken pattern piece) ∧
    text = pieces.flatten ++ (pattern ++ rest)

section

variable {pattern : List α}

omit [DecidableEq α] in
theorem Reaches.occurs {text : List α} (hreaches : Reaches pattern text) : pattern <:+: text := by
  obtain ⟨pieces, rest, _, rfl⟩ := hreaches
  exact ⟨pieces.flatten, rest, by simp⟩

omit [DecidableEq α] in
theorem Reaches.of_met (text : List α) : Reaches pattern (pattern ++ text) :=
  ⟨[], text, nofun, rfl⟩

omit [DecidableEq α] in
/-- The first of the pieces is the one that the matcher breaks off. -/
theorem reaches_broken {met : Nat} {c : α} (hmet : met < pattern.length)
    (hc : pattern[met]? ≠ some c) (text : List α) :
    Reaches pattern (pattern.take met ++ c :: text) ↔ Reaches pattern text := by
  have hlength : (pattern.take met).length = met := List.length_take_of_le (Nat.le_of_lt hmet)
  have hnext : (pattern.take met ++ c :: text)[met]? = some c := by
    rw [List.getElem?_append_right (Nat.le_of_eq hlength), hlength, Nat.sub_self]
    rfl
  have hbefore : ∀ i < met, (pattern.take met ++ c :: text)[i]? = pattern[i]? := by
    intro i hi
    rw [List.getElem?_append_left (by omega), List.getElem?_take_of_lt hi]
  constructor
  · rintro ⟨pieces, rest, hpieces, htext⟩
    cases pieces with
    | nil =>
        rw [htext, List.flatten_nil, List.nil_append, List.getElem?_append_left hmet] at hnext
        exact absurd hnext hc
    | cons piece pieces =>
        obtain ⟨⟨met', c', hmet', hc', rfl⟩, hothers⟩ := List.forall_mem_cons.mp hpieces
        have hlength' : (pattern.take met').length = met' :=
          List.length_take_of_le (Nat.le_of_lt hmet')
        rw [List.flatten_cons, List.append_assoc, List.append_assoc, List.singleton_append] at htext
        have hnext' : (pattern.take met ++ c :: text)[met']? = some c' := by
          rw [htext, List.getElem?_append_right (Nat.le_of_eq hlength'), hlength', Nat.sub_self]
          rfl
        rcases Nat.lt_trichotomy met' met with hlt | heq | hgt
        · exact absurd ((hbefore met' hlt).symm.trans hnext') hc'
        · subst heq
          obtain ⟨_, hrest⟩ := List.cons.inj (List.append_cancel_left htext)
          exact ⟨pieces, rest, hothers, hrest⟩
        · rw [htext, List.getElem?_append_left (by omega), List.getElem?_take_of_lt hgt] at hnext
          exact absurd hnext hc
  · rintro ⟨pieces, rest, hpieces, rfl⟩
    refine ⟨(pattern.take met ++ [c]) :: pieces, rest,
      List.forall_mem_cons.mpr ⟨⟨met, c, hmet, hc, rfl⟩, hpieces⟩, ?_⟩
    simp

/-- **What the matcher finds**, with a beginning of the pattern met before. -/
theorem restartMatch_from (text : List α) : ∀ met < pattern.length,
    (restartMatch pattern text met = true ↔ Reaches pattern (pattern.take met ++ text)) := by
  induction text with
  | nil =>
      intro met hmet
      refine iff_of_false Bool.false_ne_true ?_
      rintro ⟨pieces, rest, _, htext⟩
      have hlength := congrArg List.length htext
      simp only [List.append_nil, List.length_take, List.length_append] at hlength
      omega
  | cons c text ih =>
      intro met hmet
      rw [restartMatch]
      by_cases hc : pattern[met]? = some c
      · have htake : pattern.take met ++ c :: text = pattern.take (met + 1) ++ text := by
          rw [List.take_add_one, hc]
          simp
        rw [if_pos hc, htake]
        by_cases hall : met + 1 = pattern.length
        · rw [if_pos hall, hall, List.take_length]
          exact iff_of_true rfl (.of_met text)
        · rw [if_neg hall]
          exact ih (met + 1) (by omega)
      · have hpos : 0 < pattern.length := Nat.zero_lt_of_lt hmet
        rw [if_neg hc, if_neg (Nat.ne_of_lt hpos), reaches_broken hmet hc]
        exact ih 0 hpos

theorem restartMatch_iff (hpattern : pattern ≠ []) (text : List α) :
    restartMatch pattern text 0 = true ↔ Reaches pattern text :=
  restartMatch_from text 0 (List.length_pos_iff.mpr hpattern)

end

end RetroShare.StreamMatch
