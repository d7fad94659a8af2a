import Mathlib.Tactic.TypeStar

/-!
# Calls that have an outcome

Rules for programs in `Except`: a call yields a value with a property, and is not stopped by an error.
-/

namespace RetroShare.Outcome

variable {Error A B State Elem : Type}

/-- The call has an outcome, and the outcome has the property. -/
def Yields (call : Except Error A) (post : A → Prop) : Prop := ∃ value, call = .ok value ∧ post value

theorem Yields.ok {value : A} {post : A → Prop} (hpost : post value) :
    Yields (.ok value : Except Error A) post :=
  ⟨value, rfl, hpost⟩

theorem Yields.pure {value : A} {post : A → Prop} (hpost : post value) :
    Yields (Pure.pure value : Except Error A) post :=
  ⟨value, rfl, hpost⟩

theorem Yields.mono {call : Except Error A} {post post' : A → Prop} (hcall : Yields call post)
    (hmono : ∀ value, post value → post' value) : Yields call post' := by
  obtain ⟨value, hvalue, hpost⟩ := hcall
  exact ⟨value, hvalue, hmono value hpost⟩

theorem Yields.bind {call : Except Error A} {next : A → Except Error B} {post : A → Prop}
    {post' : B → Prop} (hcall : Yields call post)
    (hnext : ∀ value, post value → Yields (next value) post') : Yields (call >>= next) post' := by
  obtain ⟨value, rfl, hpost⟩ := hcall
  exact hnext value hpost

/-- A call whose outcome is known. -/
theorem Yields.bind_eq {call : Except Error A} {next : A → Except Error B} {value : A}
    {post : B → Prop} (hcall : call = .ok value) (hnext : Yields (next value) post) :
    Yields (call >>= next) post := by
  rw [hcall]
  exact hnext

/-- A loop over a list, whose invariant speaks of the elements that are left. -/
theorem Yields.foldlM {pass : State → Elem → Except Error State}
    (Invariant : List Elem → State → Prop)
    (hpass : ∀ elem rest state, Invariant (elem :: rest) state →
      Yields (pass state elem) (Invariant rest)) :
    ∀ (elems : List Elem) (state : State), Invariant elems state →
      Yields (elems.foldlM pass state) (Invariant [])
  | [], _, hstart => .pure hstart
  | elem :: rest, state, hstart => by
      rw [List.foldlM_cons]
      exact (hpass elem rest state hstart).bind fun state hstate =>
        Yields.foldlM Invariant hpass rest state hstate

theorem Yields.post {call : Except Error A} {post : A → Prop} (hcall : Yields call post) {value : A}
    (hvalue : call = .ok value) : post value := by
  obtain ⟨value', hvalue', hpost⟩ := hcall
  cases hvalue.symm.trans hvalue'
  exact hpost

theorem Yields.ne_error {call : Except Error A} {post : A → Prop} (hcall : Yields call post)
    (error : Error) : call ≠ .error error := by
  obtain ⟨value, hvalue, _⟩ := hcall
  rw [hvalue]
  exact nofun

end RetroShare.Outcome
