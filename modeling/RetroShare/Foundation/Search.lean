import Mathlib.Tactic

/-!
# Searching a text

A parser may find the parts of a text by independent searches for the characters that begin them.
Where each part is empty or begins with its own character, which occurs in no other part, every
search finds its part or nothing.
-/

namespace RetroShare.Search

variable {α : Type} [DecidableEq α]

/-- The first position of `c` from `start` on. -/
def find (text : List α) (c : α) (start : Nat) : Option Nat :=
  ((text.drop start).findIdx? (· = c)).map (start + ·)

/-- The first position of a pattern. -/
def findText (pattern : List α) : List α → Option Nat
  | [] => if pattern = [] then some 0 else none
  | c :: text =>
      if pattern <+: c :: text then some 0 else (findText pattern text).map (· + 1)

/-- The smaller of two positions, where nothing found counts as the end of all texts. -/
def earlier : Option Nat → Option Nat → Option Nat := Option.merge min

/-- The text from `start` up to `stop`, or to its end. -/
def between (text : List α) (start : Nat) : Option Nat → List α
  | none => text.drop start
  | some stop => (text.drop start).take (stop - start)

/-- The part is empty or begins with the character, which occurs in it or not. -/
def Segment (c : α) (part : List α) : Prop := part = [] ∨ part.head? = some c

variable {c : α} {text front part back : List α} {start : Nat}

theorem find_append (front rest : List α) (c : α) (start : Nat) :
    find (front ++ rest) c (front.length + start) =
      (find rest c start).map (front.length + ·) := by
  unfold find
  rw [List.drop_append, List.drop_of_length_le (Nat.le_add_right _ _), Nat.add_sub_cancel_left,
    Option.map_map, List.nil_append]
  congr 1
  funext i
  exact Nat.add_assoc _ _ _

theorem find_eq_none (hfree : c ∉ text.drop start) : find text c start = none := by
  unfold find
  rw [Option.map_eq_none_iff, List.findIdx?_eq_none_iff]
  intro other hother
  exact decide_eq_false fun heq => hfree (heq ▸ hother)

/-- A search comes to the part that begins with its character. -/
theorem find_segment (hfront : c ∉ front) (hpart : Segment c part) (hback : c ∉ back) :
    find (front ++ (part ++ back)) c 0 = if part = [] then none else some front.length := by
  cases hpart with
  | inl hempty =>
      subst hempty
      rw [if_pos rfl]
      apply find_eq_none
      simp [hfront, hback]
  | inr hhead =>
      obtain ⟨rest, rfl⟩ := List.head?_eq_some_iff.mp hhead
      have hskip : front.findIdx? (· = c) = none := by
        rw [List.findIdx?_eq_none_iff]
        intro other hother
        exact decide_eq_false fun heq => hfront (heq ▸ hother)
      unfold find
      rw [if_neg (List.cons_ne_nil _ _), List.drop_zero, List.findIdx?_append, hskip,
        List.cons_append, List.findIdx?_cons]
      simp

/-- The same search in a text with something before it. -/
theorem find_segment_at (before : List α) (hfront : c ∉ front) (hpart : Segment c part)
    (hback : c ∉ back) :
    find (before ++ (front ++ (part ++ back))) c before.length =
      if part = [] then none else some (before.length + front.length) := by
  have happend := find_append before (front ++ (part ++ back)) c 0
  rw [Nat.add_zero, find_segment hfront hpart hback] at happend
  rw [happend]
  split <;> rfl

theorem find_ge {position : Nat} (hfind : find text c start = some position) :
    start ≤ position := by
  obtain ⟨i, _, rfl⟩ := Option.map_eq_some_iff.mp hfind
  exact Nat.le_add_right _ _

theorem getElem?_of_find {position : Nat} (hfind : find text c start = some position) :
    text[position]? = some c := by
  obtain ⟨i, hi, rfl⟩ := Option.map_eq_some_iff.mp hfind
  obtain ⟨hlt, hmatch, _⟩ := List.findIdx?_eq_some_iff_getElem.mp hi
  rw [← List.getElem?_drop, List.getElem?_eq_getElem hlt, of_decide_eq_true hmatch]

theorem find_lt {position : Nat} (hfind : find text c start = some position) :
    position < text.length := by
  by_contra hge
  have hget := getElem?_of_find hfind
  rw [List.getElem?_eq_none (Nat.le_of_not_lt hge)] at hget
  cases hget

/-- A pattern that does not begin in the front begins right after it. -/
theorem findText_append {pattern : List α} (hfront : ∀ i < front.length,
    ¬pattern <+: (front ++ (pattern ++ back)).drop i) :
    findText pattern (front ++ (pattern ++ back)) = some front.length := by
  induction front with
  | nil =>
      rw [List.nil_append, List.length_nil]
      cases htext : pattern ++ back with
      | nil =>
          rw [findText, if_pos (List.append_eq_nil_iff.mp htext).1]
      | cons first rest =>
          rw [findText, if_pos (htext ▸ List.prefix_append pattern back)]
  | cons first front ih =>
      have hnot := hfront 0 (Nat.zero_lt_succ _)
      rw [List.drop_zero, List.cons_append] at hnot
      rw [List.cons_append, findText, if_neg hnot, ih]
      · rfl
      · intro i hi
        exact hfront (i + 1) (Nat.succ_lt_succ hi)

end RetroShare.Search
