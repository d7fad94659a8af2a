import Mathlib.Tactic

/-!
# Lists in segments

The front of a list, cut into segments of one length. A buffer that keeps its bytes this way holds the
list it was cut from, and says so through `flatten_segments`.
-/

namespace RetroShare.Segments

variable {A : Type}

/-- The first `count` segments of `size` elements. -/
def segments (size : Nat) : Nat → List A → List (List A)
  | 0, _ => []
  | count + 1, list => list.take size :: segments size count (list.drop size)

@[simp] theorem length_segments (size count : Nat) (list : List A) :
    (segments size count list).length = count := by
  induction count generalizing list with
  | zero => rfl
  | succ count ih => rw [segments, List.length_cons, ih]

theorem flatten_segments (size count : Nat) (list : List A) :
    (segments size count list).flatten = list.take (size * count) := by
  induction count generalizing list with
  | zero => simp [segments]
  | succ count ih =>
      rw [segments, List.flatten_cons, ih, Nat.mul_succ, Nat.add_comm, List.take_add]

/-- All of them are whole where the list is long enough. -/
theorem length_of_mem_segments {size count : Nat} {list : List A}
    (hlong : size * count ≤ list.length) : ∀ segment ∈ segments size count list,
      segment.length = size := by
  induction count generalizing list with
  | zero => exact nofun
  | succ count ih =>
      rw [Nat.mul_succ] at hlong
      intro segment hsegment
      rcases List.mem_cons.mp hsegment with rfl | hsegment
      · rw [List.length_take]
        omega
      · exact ih (by rw [List.length_drop]; omega) segment hsegment

theorem segments_append_drop (size count : Nat) (list : List A) :
    (segments size count list).flatten ++ list.drop (size * count) = list := by
  rw [flatten_segments, List.take_append_drop]

theorem length_flatten_of_forall {size : Nat} {lists : List (List A)}
    (hsize : ∀ list ∈ lists, list.length = size) : lists.flatten.length = lists.length * size := by
  induction lists with
  | nil => simp
  | cons list lists ih =>
      rw [List.flatten_cons, List.length_append, List.length_cons,
        ih fun list' hmem => hsize list' (List.mem_cons_of_mem _ hmem),
        hsize list (List.mem_cons_self ..), Nat.succ_mul, Nat.add_comm]

/-- Lists of whole segments are told apart by what they hold. -/
theorem flatten_inj {size : Nat} {first second : List (List A)}
    (hfirst : ∀ list ∈ first, list.length = size) (hsecond : ∀ list ∈ second, list.length = size)
    (hlength : first.length = second.length) : first.flatten = second.flatten ↔ first = second := by
  constructor
  · intro hflatten
    refine List.eq_iff_flatten_eq.mpr ⟨hflatten, ?_⟩
    rw [List.map_congr_left hfirst, List.map_congr_left hsecond, List.map_const', List.map_const',
      hlength]
  · exact congrArg List.flatten

/-- Copies of one segment hold the front of the list exactly when all its segments are that one. -/
theorem flatten_replicate_iff {size count : Nat} {list segment : List A}
    (hlong : size * count ≤ list.length) (hsegment : segment.length = size) :
    (List.replicate count segment).flatten = list.take (size * count) ↔
      ∀ other ∈ segments size count list, other = segment := by
  have hcopies : ∀ other ∈ List.replicate count segment, other.length = size := by
    intro other hother
    rw [List.eq_of_mem_replicate hother, hsegment]
  rw [← flatten_segments, flatten_inj hcopies (length_of_mem_segments hlong) (by simp), eq_comm,
    List.eq_replicate_iff]
  simp

end RetroShare.Segments
