import Mathlib.Tactic

/-!
# Free lists

A free list threaded through the free slots themselves: each one holds the number of the next. What the
last one holds does not matter, as long as the free slots are counted.
-/

namespace RetroShare.FreeList

/-- From `first` on, each slot of the list links to the next. -/
def Threaded (link : Nat → Nat) : Nat → List Nat → Prop
  | _, [] => True
  | first, slot :: rest => first = slot ∧ Threaded link (link slot) rest

/-- A threaded list of different slots below `slots`, with their number. -/
structure Listed (slots : Nat) (link : Nat → Nat) (first available : Nat) (free : List Nat) :
    Prop where
  threaded : Threaded link first free
  nodup : free.Nodup
  bounded : ∀ slot ∈ free, slot < slots
  count : free.length = available

variable {slots first available slot : Nat} {link link' : Nat → Nat} {free : List Nat}

theorem Threaded.congr (hlink : ∀ slot ∈ free, link' slot = link slot) :
    ∀ {first : Nat}, Threaded link first free → Threaded link' first free := by
  induction free with
  | nil => exact fun _ => trivial
  | cons slot rest ih =>
      rintro first ⟨rfl, hrest⟩
      refine ⟨rfl, ?_⟩
      rw [hlink first List.mem_cons_self]
      exact ih (fun slot hslot => hlink slot (List.mem_cons_of_mem _ hslot)) hrest

theorem threaded_range' (hlink : ∀ slot, first ≤ slot → slot < first + available →
    link slot = slot + 1) : Threaded link first (List.range' first available) := by
  induction available generalizing first with
  | zero => trivial
  | succ available ih =>
      rw [List.range'_succ]
      refine ⟨rfl, ?_⟩
      rw [hlink first le_rfl (by omega)]
      exact ih fun slot hle hlt => hlink slot (by omega) (by omega)

theorem Listed.congr (hlisted : Listed slots link first available free)
    (hlink : ∀ slot ∈ free, link' slot = link slot) : Listed slots link' first available free :=
  { hlisted with threaded := hlisted.threaded.congr hlink }

/-- All slots, each linked to its successor. -/
theorem Listed.all (hlink : ∀ slot < slots, link slot = slot + 1) :
    Listed slots link 0 slots (List.range slots) where
  threaded := by
    rw [List.range_eq_range']
    exact threaded_range' fun slot _ hlt => hlink slot (by omega)
  nodup := List.nodup_range
  bounded := fun _ hslot => List.mem_range.mp hslot
  count := List.length_range

/-- The first slot is taken. -/
theorem Listed.take (hlisted : Listed slots link first available free) (havailable : 0 < available) :
    ∃ rest, free = first :: rest ∧ Listed slots link (link first) (available - 1) rest := by
  obtain ⟨hthreaded, hnodup, hbounded, hcount⟩ := hlisted
  cases free with
  | nil =>
      rw [List.length_nil] at hcount
      omega
  | cons slot rest =>
      obtain ⟨rfl, hrest⟩ := hthreaded
      refine ⟨rest, rfl, hrest, (List.nodup_cons.mp hnodup).2,
        fun slot hslot => hbounded slot (List.mem_cons_of_mem _ hslot), ?_⟩
      rw [← hcount, List.length_cons, Nat.add_sub_cancel]

/-- A slot that is not free is put in front. -/
theorem Listed.put (hlisted : Listed slots link first available free) (hslot : slot < slots)
    (hused : slot ∉ free) :
    Listed slots (Function.update link slot first) slot (available + 1) (slot :: free) where
  threaded := by
    refine ⟨rfl, ?_⟩
    rw [Function.update_self]
    refine hlisted.threaded.congr fun other hother => Function.update_of_ne ?_ _ _
    rintro rfl
    exact hused hother
  nodup := List.nodup_cons.mpr ⟨hused, hlisted.nodup⟩
  bounded := by
    intro other hother
    rcases List.mem_cons.mp hother with rfl | hother
    · exact hslot
    · exact hlisted.bounded other hother
  count := by rw [List.length_cons, hlisted.count]

theorem Listed.available_le (hlisted : Listed slots link first available free) :
    available ≤ slots := by
  have hsubset : free ⊆ List.range slots := fun slot hslot =>
    List.mem_range.mpr (hlisted.bounded slot hslot)
  have hle := (List.subperm_of_subset hlisted.nodup hsubset).length_le
  rwa [hlisted.count, List.length_range] at hle

/-- While slots are missing, one of them is not free. -/
theorem Listed.exists_used (hlisted : Listed slots link first available free)
    (hmissing : available < slots) : ∃ slot < slots, slot ∉ free := by
  by_contra hnone
  push Not at hnone
  have hsubset : List.range slots ⊆ free := fun slot hslot => hnone slot (List.mem_range.mp hslot)
  have hle := (List.subperm_of_subset List.nodup_range hsubset).length_le
  rw [hlisted.count, List.length_range] at hle
  omega

/-- When none is missing, all are free. -/
theorem Listed.mem_of_full (hlisted : Listed slots link first slots free) (hslot : slot < slots) :
    slot ∈ free := by
  have hsubset : free ⊆ List.range slots := fun slot hslot =>
    List.mem_range.mpr (hlisted.bounded slot hslot)
  have hperm := (List.subperm_of_subset hlisted.nodup hsubset).perm_of_length_le
    (by rw [hlisted.count, List.length_range])
  exact hperm.mem_iff.mpr (List.mem_range.mpr hslot)

end RetroShare.FreeList
