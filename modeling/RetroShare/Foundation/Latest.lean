import Mathlib.Data.List.Induction
import Mathlib.Data.List.Nodup
import Mathlib.Tactic

/-!
# The latest element of each key

Elements with a key and a time come in a list. For each key one element is chosen: of those with the
greatest time, the one that comes first. A loop that replaces the chosen element of a key whenever a
strictly later one comes up ends with exactly these.
-/

namespace RetroShare

variable {Elem Key Time : Type} [LinearOrder Time] (key : Elem → Key) (time : Elem → Time)

/-- Nothing of the same key is later, and nothing before it is as late. -/
def IsLatest (elems : List Elem) (elem : Elem) : Prop :=
  ∃ before after, elems = before ++ elem :: after ∧
    (∀ other ∈ before, key other = key elem → time other < time elem) ∧
      ∀ other ∈ after, key other = key elem → time other ≤ time elem

namespace IsLatest

variable {key time} {elems : List Elem} {elem other : Elem}

theorem mem (hlatest : IsLatest key time elems elem) : elem ∈ elems := by
  obtain ⟨before, after, rfl, -, -⟩ := hlatest
  simp

theorem le (hlatest : IsLatest key time elems elem) (hmem : other ∈ elems)
    (hkey : key other = key elem) : time other ≤ time elem := by
  obtain ⟨before, after, rfl, hbefore, hafter⟩ := hlatest
  rw [List.mem_append, List.mem_cons] at hmem
  rcases hmem with hmem | rfl | hmem
  · exact (hbefore other hmem hkey).le
  · exact le_rfl
  · exact hafter other hmem hkey

end IsLatest

theorem not_isLatest_nil (elem : Elem) : ¬ IsLatest key time [] elem :=
  fun hlatest => List.not_mem_nil hlatest.mem

/-- One more element: the chosen ones that it does not replace, and itself if it is later than all. -/
theorem isLatest_concat (elems : List Elem) (last elem : Elem) :
    IsLatest key time (elems ++ [last]) elem ↔
      (IsLatest key time elems elem ∧ (key last = key elem → time last ≤ time elem)) ∨
        (elem = last ∧ ∀ other ∈ elems, key other = key last → time other < time last) := by
  constructor
  · rintro ⟨before, after, hsplit, hbefore, hafter⟩
    induction after using List.reverseRecOn with
    | nil =>
        obtain ⟨rfl, hlast⟩ := List.append_inj' hsplit rfl
        obtain rfl : last = elem := by simpa using hlast
        exact .inr ⟨rfl, hbefore⟩
    | append_singleton init final _ =>
        rw [← List.cons_append, ← List.append_assoc] at hsplit
        obtain ⟨rfl, hlast⟩ := List.append_inj' hsplit rfl
        obtain rfl : last = final := by simpa using hlast
        refine .inl ⟨⟨before, init, rfl, hbefore, fun other hmem => ?_⟩, hafter last (by simp)⟩
        exact hafter other (List.mem_append_left _ hmem)
  · rintro (⟨⟨before, after, rfl, hbefore, hafter⟩, hlast⟩ | ⟨rfl, hall⟩)
    · refine ⟨before, after ++ [last], by simp, hbefore, fun other hmem => ?_⟩
      rw [List.mem_append, List.mem_singleton] at hmem
      rcases hmem with hmem | rfl
      · exact hafter other hmem
      · exact hlast
    · exact ⟨elems, [], rfl, hall, by simp⟩

/-- Two chosen elements of one key are the same. -/
theorem IsLatest.unique {elems : List Elem} {first second : Elem}
    (hfirst : IsLatest key time elems first) (hsecond : IsLatest key time elems second)
    (hkey : key first = key second) : first = second := by
  induction elems using List.reverseRecOn with
  | nil => exact absurd hfirst (not_isLatest_nil key time first)
  | append_singleton init last ih =>
      rw [isLatest_concat] at hfirst hsecond
      rcases hfirst with ⟨hfirst, hkept⟩ | ⟨rfl, hlater⟩
      · rcases hsecond with ⟨hsecond, -⟩ | ⟨rfl, hlater⟩
        · exact ih hfirst hsecond
        · exact absurd (hkept hkey.symm) (hlater first hfirst.mem hkey).not_ge
      · rcases hsecond with ⟨hsecond, hkept⟩ | ⟨rfl, -⟩
        · exact absurd (hkept hkey) (hlater second hsecond.mem hkey.symm).not_ge
        · rfl

/-- Each key that occurs has its chosen element. -/
theorem exists_isLatest (elems : List Elem) : ∀ elem ∈ elems,
    ∃ chosen, IsLatest key time elems chosen ∧ key chosen = key elem := by
  induction elems using List.reverseRecOn with
  | nil => exact nofun
  | append_singleton init last ih =>
      have hlast : ∃ chosen, IsLatest key time (init ++ [last]) chosen ∧ key chosen = key last := by
        by_cases hlater : ∀ other ∈ init, key other = key last → time other < time last
        · exact ⟨last, (isLatest_concat ..).mpr (.inr ⟨rfl, hlater⟩), rfl⟩
        · push Not at hlater
          obtain ⟨other, hmem, hkey, hle⟩ := hlater
          obtain ⟨chosen, hchosen, hsame⟩ := ih other hmem
          have hbound : time last ≤ time chosen := hle.trans (hchosen.le hmem hsame.symm)
          exact ⟨chosen, (isLatest_concat ..).mpr (.inl ⟨hchosen, fun _ => hbound⟩),
            hsame.trans hkey⟩
      intro elem hmem
      rw [List.mem_append, List.mem_singleton] at hmem
      rcases hmem with hmem | rfl
      · obtain ⟨chosen, hchosen, hsame⟩ := ih elem hmem
        by_cases hkept : key last = key chosen → time last ≤ time chosen
        · exact ⟨chosen, (isLatest_concat ..).mpr (.inl ⟨hchosen, hkept⟩), hsame⟩
        · obtain ⟨next, hnext, hkey⟩ := hlast
          push Not at hkept
          exact ⟨next, hnext, hkey.trans (hkept.1.trans hsame)⟩
      · exact hlast

/-- Where no two elements share a key, each of them is chosen. -/
theorem isLatest_of_mem {elems : List Elem} (hnodup : (elems.map key).Nodup) :
    ∀ elem ∈ elems, IsLatest key time elems elem := by
  intro elem hmem
  obtain ⟨chosen, hchosen, hkey⟩ := exists_isLatest key time elems elem hmem
  rwa [← List.inj_on_of_nodup_map hnodup hchosen.mem hmem hkey]

end RetroShare
