import Mathlib.Order.Defs.LinearOrder
import Mathlib.Data.List.Basic
import Mathlib.Tactic

/-!
# Multimaps

An associative array that keeps several values of one key, in the order in which they came: a list of
entries sorted by key. The entries up to a key are a prefix of it, so that a bound on the keys and a
bound on the number of entries cut at the same place.
-/

namespace RetroShare

structure Multimap (K V : Type) [LinearOrder K] where
  entries : List (K × V)
  sorted : entries.Pairwise fun a b => a.1 ≤ b.1

namespace Multimap

variable {K V : Type} [LinearOrder K]

def empty : Multimap K V := ⟨[], .nil⟩

/-- Entries with keys up to `k`. -/
def upTo (m : Multimap K V) (k : K) : List (K × V) := m.entries.filter fun e => e.1 ≤ k

def above (m : Multimap K V) (k : K) : List (K × V) := m.entries.filter fun e => k < e.1

theorem mem_upTo {m : Multimap K V} {k : K} {e : K × V} :
    e ∈ m.upTo k ↔ e ∈ m.entries ∧ e.1 ≤ k := by
  unfold upTo
  rw [List.mem_filter, decide_eq_true_iff]

theorem mem_above {m : Multimap K V} {k : K} {e : K × V} :
    e ∈ m.above k ↔ e ∈ m.entries ∧ k < e.1 := by
  unfold above
  rw [List.mem_filter, decide_eq_true_iff]

theorem le_of_mem_upTo {m : Multimap K V} {k : K} {e : K × V} (he : e ∈ m.upTo k) : e.1 ≤ k :=
  (mem_upTo.mp he).2

theorem lt_of_mem_above {m : Multimap K V} {k : K} {e : K × V} (he : e ∈ m.above k) : k < e.1 :=
  (mem_above.mp he).2

/-- A new entry comes after those of the same key. -/
def insert (m : Multimap K V) (k : K) (v : V) : Multimap K V where
  entries := m.upTo k ++ (k, v) :: m.above k
  sorted := by
    rw [List.pairwise_append, List.pairwise_cons]
    refine ⟨m.sorted.sublist List.filter_sublist, ⟨fun e he => (lt_of_mem_above he).le,
      m.sorted.sublist List.filter_sublist⟩, fun a ha b hb => (le_of_mem_upTo ha).trans ?_⟩
    rcases List.mem_cons.mp hb with rfl | hb
    · exact le_refl _
    · exact (lt_of_mem_above hb).le

/-- Without the first entry that meets `p`. -/
def eraseFirst (m : Multimap K V) (p : K × V → Bool) : Multimap K V :=
  ⟨m.entries.eraseP p, m.sorted.sublist List.eraseP_sublist⟩

/-- The first `n` entries. -/
def truncate (m : Multimap K V) (n : Nat) : Multimap K V :=
  ⟨m.entries.take n, m.sorted.sublist (List.take_sublist n _)⟩

def filter (m : Multimap K V) (p : K × V → Bool) : Multimap K V :=
  ⟨m.entries.filter p, m.sorted.sublist List.filter_sublist⟩

def dropLast (m : Multimap K V) : Multimap K V :=
  ⟨m.entries.dropLast, m.sorted.sublist (List.dropLast_sublist _)⟩

/-- `f` applied to the first element that meets `p`. -/
def modifyFirst {Elem : Type} (p : Elem → Bool) (f : Elem → Elem) : List Elem → List Elem
  | [] => []
  | a :: l => if p a then f a :: l else a :: modifyFirst p f l

theorem map_modifyFirst {Elem Key : Type} {p : Elem → Bool} {f : Elem → Elem} (key : Elem → Key)
    (hkey : ∀ a, key (f a) = key a) (l : List Elem) : (modifyFirst p f l).map key = l.map key := by
  induction l with
  | nil => rfl
  | cons a l ih =>
      rw [modifyFirst]
      split
      · rw [List.map_cons, List.map_cons, hkey]
      · rw [List.map_cons, List.map_cons, ih]

def update (m : Multimap K V) (p : K × V → Bool) (f : V → V) : Multimap K V where
  entries := modifyFirst p (fun e => (e.1, f e.2)) m.entries
  sorted := by
    have hkeys : (modifyFirst p (fun e => (e.1, f e.2)) m.entries).map Prod.fst =
        m.entries.map Prod.fst :=
      map_modifyFirst (f := fun e : K × V => (e.1, f e.2)) Prod.fst (fun _ => rfl) m.entries
    rw [← List.pairwise_map (f := Prod.fst) (R := (· ≤ ·)), hkeys, List.pairwise_map]
    exact m.sorted

theorem entries_eq_upTo_append (m : Multimap K V) (k : K) : m.entries = m.upTo k ++ m.above k := by
  obtain ⟨entries, hsorted⟩ := m
  unfold upTo above
  dsimp only
  induction entries with
  | nil => rfl
  | cons e entries ih =>
      rw [List.pairwise_cons] at hsorted
      rw [List.filter_cons, List.filter_cons]
      by_cases hle : e.1 ≤ k
      · rw [if_pos (decide_eq_true hle), if_neg (by simpa using hle), List.cons_append]
        exact congrArg (e :: ·) (ih hsorted.2)
      · have hnone : entries.filter (fun e => e.1 ≤ k) = [] := by
          rw [List.filter_eq_nil_iff]
          intro a ha hak
          exact hle ((hsorted.1 a ha).trans (of_decide_eq_true hak))
        have hall : entries.filter (fun e => k < e.1) = entries := by
          rw [List.filter_eq_self]
          intro a ha
          exact decide_eq_true ((not_le.mp hle).trans_le (hsorted.1 a ha))
        rw [if_neg (by simpa using hle), if_pos (decide_eq_true (not_le.mp hle)), hnone, hall,
          List.nil_append]

theorem insert_perm (m : Multimap K V) (k : K) (v : V) :
    (m.insert k v).entries.Perm ((k, v) :: m.entries) := by
  rw [m.entries_eq_upTo_append k]
  exact List.perm_middle

/-- With all entries below up to the key and all others behind it, a new one goes in between. -/
theorem entries_insert (m : Multimap K V) (k : K) (v : V) {lower upper : List (K × V)}
    (hentries : m.entries = lower ++ upper) (hlower : ∀ e ∈ lower, e.1 ≤ k)
    (hupper : ∀ e ∈ upper, k < e.1) : (m.insert k v).entries = lower ++ (k, v) :: upper := by
  have hupTo : m.upTo k = lower := by
    unfold upTo
    rw [hentries, List.filter_append, List.filter_eq_self.mpr, List.filter_eq_nil_iff.mpr,
      List.append_nil]
    · exact fun e he hle => absurd (of_decide_eq_true hle) (not_le.mpr (hupper e he))
    · exact fun e he => decide_eq_true (hlower e he)
  have habove : m.above k = upper := by
    unfold above
    rw [hentries, List.filter_append, List.filter_eq_nil_iff.mpr, List.filter_eq_self.mpr,
      List.nil_append]
    · exact fun e he => decide_eq_true (hupper e he)
    · exact fun e he hlt => absurd (of_decide_eq_true hlt) (not_lt.mpr (hlower e he))
  calc (m.insert k v).entries = m.upTo k ++ (k, v) :: m.above k := rfl
    _ = lower ++ (k, v) :: upper := by rw [hupTo, habove]

end Multimap

end RetroShare
