import Mathlib.Logic.Relation

/-!
# Runs of a partial step function

A component is a partial step function `step : State → Op → Option State`; `none` is a step the
program has no defined outcome for. A run is any finite sequence of defined steps, each meeting a
condition on the state before it and the operation. The condition is what an environment promises:
`fun _ _ => True` leaves every interleaving in.
-/

namespace RetroShare.Transition

variable {State Op : Type}

/-- One defined step whose operation the environment may issue in that state. -/
def StepBy (step : State → Op → Option State) (allowed : State → Op → Prop)
    (before after : State) : Prop :=
  ∃ op, allowed before op ∧ step before op = some after

/-- `final` is reachable from `initial` by finitely many allowed steps. -/
def Reaches (step : State → Op → Option State) (allowed : State → Op → Prop)
    (initial final : State) : Prop :=
  Relation.ReflTransGen (StepBy step allowed) initial final

section Rules

variable {step : State → Op → Option State} {allowed : State → Op → Prop}

theorem Reaches.refl (state : State) : Reaches step allowed state state :=
  Relation.ReflTransGen.refl

theorem Reaches.tail {initial middle final : State} {op : Op}
    (hreach : Reaches step allowed initial middle) (hallowed : allowed middle op)
    (hstep : step middle op = some final) : Reaches step allowed initial final :=
  Relation.ReflTransGen.tail hreach ⟨op, hallowed, hstep⟩

/-- A run with one more operation, named first. -/
theorem Reaches.next {initial middle final : State} (op : Op)
    (hreach : Reaches step allowed initial middle) (hallowed : allowed middle op)
    (hstep : step middle op = some final) : Reaches step allowed initial final :=
  hreach.tail hallowed hstep

/-- **The invariant rule.** What holds initially and is kept by every allowed step holds in every
reachable state. -/
theorem Reaches.invariant (Invariant : State → Prop)
    (hkeep : ∀ before op after, Invariant before → allowed before op →
      step before op = some after → Invariant after)
    {initial final : State} (hinitial : Invariant initial)
    (hreach : Reaches step allowed initial final) : Invariant final := by
  induction hreach with
  | refl => exact hinitial
  | tail _ hstep ih =>
      obtain ⟨op, hallowed, hstep⟩ := hstep
      exact hkeep _ op _ ih hallowed hstep

/-- A weaker environment condition reaches at least as much. -/
theorem Reaches.mono {allowed' : State → Op → Prop}
    (hweaker : ∀ state op, allowed state op → allowed' state op)
    {initial final : State} (hreach : Reaches step allowed initial final) :
    Reaches step allowed' initial final := by
  have hincl : StepBy step allowed ≤ StepBy step allowed' := by
    rintro before after ⟨op, hallowed, hstep⟩
    exact ⟨op, hweaker before op hallowed, hstep⟩
  exact Relation.ReflTransGen.mono hincl _ _ hreach

end Rules

/-! ### Loops

A loop over a list runs one partial step for each element. Its invariant speaks of the elements that
are left.
-/

section Loops

variable {Elem : Type} {pass : State → Elem → Option State} (Invariant : List Elem → State → Prop)

/-- What every pass keeps holds when the loop ends. -/
theorem foldlM_keeps
    (hkeep : ∀ elem rest before after, Invariant (elem :: rest) before →
      pass before elem = some after → Invariant rest after) :
    ∀ (elems : List Elem) (initial final : State), Invariant elems initial →
      elems.foldlM pass initial = some final → Invariant [] final
  | [], initial, final, hinitial, hloop => by
      cases hloop
      exact hinitial
  | elem :: rest, initial, final, hinitial, hloop => by
      rw [List.foldlM_cons] at hloop
      obtain ⟨middle, hpass, hrest⟩ := Option.bind_eq_some_iff.mp hloop
      exact foldlM_keeps hkeep rest middle final (hkeep elem rest initial middle hinitial hpass) hrest

/-- When the invariant also makes every pass defined, the loop ends. -/
theorem foldlM_defined
    (hkeep : ∀ elem rest before, Invariant (elem :: rest) before →
      ∃ after, pass before elem = some after ∧ Invariant rest after) :
    ∀ (elems : List Elem) (initial : State), Invariant elems initial →
      ∃ final, elems.foldlM pass initial = some final ∧ Invariant [] final
  | [], initial, hinitial => ⟨initial, rfl, hinitial⟩
  | elem :: rest, initial, hinitial => by
      obtain ⟨middle, hpass, hmiddle⟩ := hkeep elem rest initial hinitial
      obtain ⟨final, hloop, hfinal⟩ := foldlM_defined hkeep rest middle hmiddle
      refine ⟨final, ?_, hfinal⟩
      rw [List.foldlM_cons, hpass]
      exact hloop

/-- Every pass of the loop meets a condition on the state before it. -/
def Along (pass : State → Elem → Option State) (condition : State → Elem → Prop) :
    List Elem → State → Prop
  | [], _ => True
  | elem :: rest, state =>
      condition state elem ∧ ∀ next, pass state elem = some next → Along pass condition rest next

/-- What every pass that meets the condition keeps holds when the loop ends. -/
theorem foldlM_keeps_along {condition : State → Elem → Prop} (Kept : State → Prop)
    (hkeep : ∀ elem before after, Kept before → condition before elem →
      pass before elem = some after → Kept after)
    {elems : List Elem} {initial final : State} (hinitial : Kept initial)
    (halong : Along pass condition elems initial) (hloop : elems.foldlM pass initial = some final) :
    Kept final :=
  (foldlM_keeps (fun rest state => Kept state ∧ Along pass condition rest state)
    (fun elem _ before after ⟨hkept, hcondition, hrest⟩ hpass =>
      ⟨hkeep elem before after hkept hcondition hpass, hrest after hpass⟩)
    elems initial final ⟨hinitial, halong⟩ hloop).1

end Loops

end RetroShare.Transition
