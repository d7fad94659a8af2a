/-!
# Loops that need not end

A loop is its body: `none` where the condition of the loop fails, else the state after one pass.
-/

namespace RetroShare.Loop

variable {State : Type} {body : State → Option State} {state next final : State}

/-- The state in which the loop ends, within `fuel` looks at its condition. -/
def run (body : State → Option State) : Nat → State → Option State
  | 0, _ => none
  | fuel + 1, state =>
      match body state with
      | none => some state
      | some next => run body fuel next

/-- The loop comes to an end, in the state `final`. -/
def Ends (body : State → Option State) (state final : State) : Prop :=
  ∃ fuel, run body fuel state = some final

theorem run_mono {fuel fuel' : Nat} (hle : fuel ≤ fuel') (hrun : run body fuel state = some final) :
    run body fuel' state = some final := by
  induction fuel generalizing state fuel' with
  | zero => cases hrun
  | succ fuel ih =>
      obtain ⟨fuel', rfl⟩ := Nat.exists_eq_add_of_le' (Nat.zero_lt_of_lt hle)
      simp only [run] at hrun ⊢
      split at hrun
      case h_1 hstop => exact hrun
      case h_2 next hpass => exact ih (Nat.le_of_succ_le_succ hle) hrun

theorem ends_of_none (hstop : body state = none) : Ends body state final ↔ final = state := by
  constructor
  · rintro ⟨fuel, hrun⟩
    cases fuel with
    | zero => cases hrun
    | succ fuel =>
        simp only [run, hstop, Option.some.injEq] at hrun
        exact hrun.symm
  · rintro rfl
    exact ⟨1, by simp only [run, hstop]⟩

theorem ends_of_some (hpass : body state = some next) :
    Ends body state final ↔ Ends body next final := by
  constructor
  · rintro ⟨fuel, hrun⟩
    cases fuel with
    | zero => cases hrun
    | succ fuel =>
        simp only [run, hpass] at hrun
        exact ⟨fuel, hrun⟩
  · rintro ⟨fuel, hrun⟩
    exact ⟨fuel + 1, by simp only [run, hpass, hrun]⟩

/-- What every pass keeps holds at the end, where the condition of the loop fails. -/
theorem Ends.keeps (Kept : State → Prop)
    (hkeep : ∀ before after, Kept before → body before = some after → Kept after)
    (hends : Ends body state final) (hinitial : Kept state) : Kept final ∧ body final = none := by
  obtain ⟨fuel, hrun⟩ := hends
  induction fuel generalizing state with
  | zero => cases hrun
  | succ fuel ih =>
      simp only [run] at hrun
      split at hrun
      case h_1 hstop =>
        cases hrun
        exact ⟨hinitial, hstop⟩
      case h_2 next hpass => exact ih (hkeep _ _ hinitial hpass) hrun

/-- A loop with a property that no pass ends never ends. -/
theorem not_ends (Stuck : State → Prop)
    (hstuck : ∀ state, Stuck state → ∃ next, body state = some next ∧ Stuck next)
    (hinitial : Stuck state) : ¬Ends body state final := by
  intro hends
  have hkeep : ∀ before after, Stuck before → body before = some after → Stuck after := by
    intro before after hbefore hpass
    obtain ⟨next, hnext, hkept⟩ := hstuck before hbefore
    cases hpass.symm.trans hnext
    exact hkept
  obtain ⟨hfinal, hstop⟩ := hends.keeps Stuck hkeep hinitial
  obtain ⟨next, hnext, _⟩ := hstuck final hfinal
  cases hstop.symm.trans hnext

theorem Ends.unique {other : State} (hends : Ends body state final) (hother : Ends body state other) :
    other = final := by
  obtain ⟨fuel, hrun⟩ := hends
  induction fuel generalizing state with
  | zero => cases hrun
  | succ fuel ih =>
      simp only [run] at hrun
      split at hrun
      case h_1 hstop =>
        cases hrun
        exact (ends_of_none hstop).mp hother
      case h_2 next hpass => exact ih ((ends_of_some hpass).mp hother) hrun

/-- A loop over a list, each pass of which is given more time. -/
theorem foldlM_mono {Elem : Type} {pass pass' : State → Elem → Option State}
    (hmono : ∀ state elem next, pass state elem = some next → pass' state elem = some next) :
    ∀ (elems : List Elem) {state : State}, elems.foldlM pass state = some final →
      elems.foldlM pass' state = some final
  | [], _, hloop => hloop
  | elem :: rest, state, hloop => by
      rw [List.foldlM_cons] at hloop ⊢
      obtain ⟨next, hpass, hrest⟩ := Option.bind_eq_some_iff.mp hloop
      rw [hmono state elem next hpass]
      exact foldlM_mono hmono rest hrest

end RetroShare.Loop
