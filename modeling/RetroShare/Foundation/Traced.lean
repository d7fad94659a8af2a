/-!
# Programs that leave a trace

A program that may have no outcome, with what it did on the way: the trace of a run that goes wrong
ends with what went wrong.
-/

namespace RetroShare

structure Traced (Event A : Type) where
  trace : List Event
  outcome : Option A

namespace Traced

variable {Event A B : Type}

def pure (a : A) : Traced Event A := ⟨[], some a⟩

/-- One event, after which the program has an outcome or none. -/
def emit (event : Event) (outcome : Option A) : Traced Event A := ⟨[event], outcome⟩

def bind (x : Traced Event A) (next : A → Traced Event B) : Traced Event B :=
  match x.outcome with
  | none => ⟨x.trace, none⟩
  | some a => ⟨x.trace ++ (next a).trace, (next a).outcome⟩

instance : Monad (Traced Event) where
  pure := pure
  bind := bind

/-- Every event of the trace is a good one. -/
def All (good : Event → Prop) (x : Traced Event A) : Prop := ∀ event ∈ x.trace, good event

variable {good : Event → Prop}

@[simp]
theorem all_pure (a : A) : (Pure.pure a : Traced Event A).All good :=
  fun _ hmem => absurd hmem List.not_mem_nil

@[simp]
theorem all_emit {event : Event} {outcome : Option A} :
    (emit event outcome).All good ↔ good event := by
  simp [All, emit]

/-- What follows is only done when there is an outcome so far. -/
theorem all_bind {x : Traced Event A} {next : A → Traced Event B} :
    (x >>= next).All good ↔ x.All good ∧ ∀ a, x.outcome = some a → (next a).All good := by
  change (x.bind next).All good ↔ _
  unfold bind
  split
  case h_1 hnone => simp [All, hnone]
  case h_2 a ha =>
    simp only [All, List.mem_append, ha, Option.some.injEq]
    constructor
    · exact fun h => ⟨fun event hmem => h event (.inl hmem),
        fun b hb event hmem => h event (.inr (hb ▸ hmem))⟩
    · rintro ⟨hfirst, hnext⟩ event (hmem | hmem)
      · exact hfirst event hmem
      · exact hnext a rfl event hmem

theorem outcome_bind {x : Traced Event A} {next : A → Traced Event B} {b : B} :
    (x >>= next).outcome = some b ↔ ∃ a, x.outcome = some a ∧ (next a).outcome = some b := by
  change (x.bind next).outcome = some b ↔ _
  unfold bind
  split
  case h_1 hnone => simp [hnone]
  case h_2 a ha => simp [ha]

@[simp]
theorem outcome_pure {a b : A} : (Pure.pure a : Traced Event A).outcome = some b ↔ a = b :=
  Option.some_inj

@[simp]
theorem outcome_emit {event : Event} {outcome : Option A} : (emit event outcome).outcome = outcome :=
  rfl

/-- The program comes to this outcome, and does only good things on the way. -/
def Ends (good : Event → Prop) (x : Traced Event A) (a : A) : Prop :=
  x.All good ∧ x.outcome = some a

@[simp]
theorem ends_pure {a b : A} : (Pure.pure a : Traced Event A).Ends good b ↔ a = b := by
  simp [Ends]

@[simp]
theorem ends_emit {event : Event} {outcome : Option A} {a : A} :
    (emit event outcome).Ends good a ↔ good event ∧ outcome = some a := by
  simp [Ends]

theorem ends_bind {x : Traced Event A} {next : A → Traced Event B} {b : B} :
    (x >>= next).Ends good b ↔ ∃ a, x.Ends good a ∧ (next a).Ends good b := by
  simp only [Ends, all_bind, outcome_bind]
  constructor
  · rintro ⟨⟨hfirst, hnext⟩, a, ha, hb⟩
    exact ⟨a, ⟨hfirst, ha⟩, hnext a ha, hb⟩
  · rintro ⟨a, ⟨hfirst, ha⟩, hnext, hb⟩
    refine ⟨⟨hfirst, fun other hother => ?_⟩, a, ha, hb⟩
    rwa [Option.some.inj (hother.symm.trans ha)]

end Traced

end RetroShare
