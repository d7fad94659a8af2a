import Mathlib.Data.List.Basic

/-!
# Noninterference by unwinding

Some operations of a deterministic machine are hidden from an observer. If a relation between states
survives them on one side alone, and every other operation on both sides at once, then two runs that
differ in hidden operations only end in related states.
-/

namespace RetroShare.Noninterference

variable {State Op : Type}

/-- Every operation of the run meets the condition in the state in which it is issued. -/
def Meets (run : State → Op → State) (allowed : State → Op → Prop) : State → List Op → Prop
  | _, [] => True
  | state, op :: ops => allowed state op ∧ Meets run allowed (run state op) ops

/-- The conditions on one step. -/
structure Unwinding (run : State → Op → State) (allowed : State → Op → Prop) (hidden : Op → Bool)
    (Invariant : State → Prop) (Same : State → State → Prop) : Prop where
  symm : ∀ s t, Same s t → Same t s
  trans : ∀ s t u, Same s t → Same t u → Same s u
  keeps : ∀ s op, Invariant s → allowed s op → Invariant (run s op)
  hides : ∀ s op, hidden op = true → Invariant s → allowed s op → Same s (run s op)
  shows : ∀ s t op, hidden op = false → Invariant s → Invariant t → allowed s op → allowed t op →
    Same s t → Same (run s op) (run t op)

variable {run : State → Op → State} {allowed : State → Op → Prop} {hidden : Op → Bool}
  {Invariant : State → Prop} {Same : State → State → Prop}

theorem Unwinding.invariant (hunwind : Unwinding run allowed hidden Invariant Same) (ops : List Op)
    {s : State} (hinv : Invariant s) (hmeets : Meets run allowed s ops) :
    Invariant (ops.foldl run s) := by
  induction ops generalizing s with
  | nil => exact hinv
  | cons op ops ih => exact ih (hunwind.keeps s op hinv hmeets.1) hmeets.2

theorem Unwinding.all_hidden (hunwind : Unwinding run allowed hidden Invariant Same)
    (ops : List Op) {s t : State} (hinv : Invariant t) (hmeets : Meets run allowed t ops)
    (hhidden : ops.filter (fun op => !hidden op) = []) (hsame : Same s t) :
    Same s (ops.foldl run t) := by
  induction ops generalizing t with
  | nil => exact hsame
  | cons op ops ih =>
      cases hop : hidden op with
      | true =>
          rw [List.filter_cons_of_neg (by simp [hop])] at hhidden
          exact ih (hunwind.keeps t op hinv hmeets.1) hmeets.2 hhidden
            (hunwind.trans _ _ _ hsame (hunwind.hides t op hop hinv hmeets.1))
      | false => simp [hop] at hhidden

/-- **Unwinding.** Two runs with the same visible operations, from related states, end in related
states. -/
theorem Unwinding.noninterference (hunwind : Unwinding run allowed hidden Invariant Same)
    (ops ops' : List Op) {s t : State} (hs : Invariant s) (ht : Invariant t)
    (hmeets : Meets run allowed s ops) (hmeets' : Meets run allowed t ops')
    (hvisible : ops.filter (fun op => !hidden op) = ops'.filter (fun op => !hidden op))
    (hsame : Same s t) : Same (ops.foldl run s) (ops'.foldl run t) := by
  induction ops generalizing s t ops' with
  | nil => exact hunwind.all_hidden ops' ht hmeets' hvisible.symm hsame
  | cons op ops ih =>
      have hs' := hunwind.keeps s op hs hmeets.1
      cases hop : hidden op with
      | true =>
          rw [List.filter_cons_of_neg (by simp [hop])] at hvisible
          have hstill := hunwind.symm _ _ (hunwind.hides s op hop hs hmeets.1)
          exact ih ops' hs' ht hmeets.2 hmeets' hvisible (hunwind.trans _ _ _ hstill hsame)
      | false =>
          rw [List.filter_cons_of_pos (by simp [hop])] at hvisible
          -- the second run first goes through its hidden operations
          induction ops' generalizing t with
          | nil => cases hvisible
          | cons op' ops' ih' =>
              have ht' := hunwind.keeps t op' ht hmeets'.1
              cases hop' : hidden op' with
              | true =>
                  rw [List.filter_cons_of_neg (a := op') (by simp [hop'])] at hvisible
                  have hstill := hunwind.hides t op' hop' ht hmeets'.1
                  exact ih' ht' hmeets'.2 hvisible (hunwind.trans _ _ _ hsame hstill)
              | false =>
                  rw [List.filter_cons_of_pos (a := op') (by simp [hop'])] at hvisible
                  obtain ⟨rfl, hrest⟩ := List.cons.inj hvisible
                  exact ih ops' hs' ht' hmeets.2 hmeets'.2 hrest
                    (hunwind.shows s t op hop hs ht hmeets.1 hmeets'.1 hsame)

end RetroShare.Noninterference
