import RetroShare.Serialiser.TypeSerializer

/-!
# The loops of containers

A container reads its elements as often as its count says, whatever becomes of them. The runs of
these loops are observed here, in a container and in the containers inside it, and compared with what
the packet announces.
-/

namespace RetroShare.Serialiser

open Bytes

/-- One run of a container's loop: the bytes left in the packet after the count, how many elements
were created, and which of them were decoded. -/
structure Loop where
  remaining : Nat
  created : Nat
  decoded : List Bool

/-- No more elements than bytes are left, and none after one that was not decoded. -/
def Loop.Bounded (loop : Loop) : Prop :=
  loop.created ≤ loop.remaining ∧ ∀ decoded ∈ loop.decoded.dropLast, decoded = true

/-- Whether a field was decoded, and the loops that were run for it. -/
structure Observed where
  decoded : Bool
  loops : List Loop

/-! ### The loops of a run -/

section Runs

variable {α : Type}

def observeMany (body : ReadContext → α × ReadContext) (observe : ReadContext → Observed) :
    Nat → ReadContext → List Observed
  | 0, _ => []
  | count + 1, ctx => observe ctx :: observeMany body observe count (body ctx).2

def observeContainer (packet : Packet) (body : ReadContext → α × ReadContext)
    (observe : ReadContext → Observed) (ctx : ReadContext) : Observed :=
  let (count, ctx) := ctx.readCount packet
  let elements := observeMany body observe count.toNat ctx
  { decoded := ctx.mOk && elements.all Observed.decoded
    loops :=
      { remaining := packet.size - ctx.reader.offset
        created := (readMany body count.toNat ctx).1.length
        decoded := elements.map Observed.decoded } :: elements.flatMap Observed.loops }

def observePair (first : ReadContext → α × ReadContext) (observe : ReadContext → Observed)
    (observe' : ReadContext → Observed) (ctx : ReadContext) : Observed :=
  let left := observe ctx
  let right := observe' (first ctx).2
  { decoded := left.decoded && right.decoded, loops := left.loops ++ right.loops }

end Runs

/-- `deserialize`, observed. -/
def Kind.observe {α : Type} : Kind α → Packet → ReadContext → Observed
  | bool, packet, ctx => ⟨(bool.deserialize packet ctx).2.mOk, []⟩
  | uint width, packet, ctx => ⟨((uint width).deserialize packet ctx).2.mOk, []⟩
  | time, packet, ctx => ⟨(time.deserialize packet ctx).2.mOk, []⟩
  | string, packet, ctx => ⟨(string.deserialize packet ctx).2.mOk, []⟩
  | id width hwidth, packet, ctx => ⟨((id width hwidth).deserialize packet ctx).2.mOk, []⟩
  -- the outcome that the code drops
  | flags32, packet, ctx => ⟨ctx.mOk && (getRawUInt32 packet ctx.reader).1.isSome, []⟩
  | enum width, packet, ctx => ⟨((enum width).deserialize packet ctx).2.mOk, []⟩
  | memBlock initialSize, packet, ctx =>
      ⟨((memBlock initialSize).deserialize packet ctx).2.mOk, []⟩
  | vector kind, packet, ctx =>
      observeContainer packet (kind.deserialize packet) (kind.observe packet) ctx
  | list kind, packet, ctx =>
      observeContainer packet (kind.deserialize packet) (kind.observe packet) ctx
  | set kind, packet, ctx =>
      observeContainer packet (kind.deserialize packet) (kind.observe packet) ctx
  | map key value, packet, ctx =>
      observeContainer packet ((pair key value).deserialize packet)
        (observePair (key.deserialize packet) (key.observe packet) (value.observe packet)) ctx
  | pair first second, packet, ctx =>
      observePair (first.deserialize packet) (first.observe packet) (second.observe packet) ctx

/-! ### What the packet announces -/

/-- Where reading goes on after a field, and whether nothing was missing in it; nothing if it fails. -/
abbrev Behind : Type := Reader → Option (Bool × Reader)

def behindRaw {α : Type} (raw : Reader → Option α × Reader) : Behind := fun reader =>
  match raw reader with
  | (some _, reader) => some (true, reader)
  | (none, _) => none

def behindMany (behind : Behind) : Nat → Behind
  | 0, reader => some (true, reader)
  | count + 1, reader => do
      let (whole, reader) ← behind reader
      let (others, reader) ← behindMany behind count reader
      return (whole && others, reader)

/-- The element count that stands in the packet. -/
def Packet.announced (packet : Packet) (reader : Reader) : Option (Nat × Reader) :=
  match getRawUInt32 packet reader with
  | (some count, reader) => some (count, reader)
  | (none, _) => none

def behindContainer (packet : Packet) (behind : Behind) : Behind := fun reader => do
  let (count, reader) ← packet.announced reader
  behindMany behind count reader

def behindPair (behind behind' : Behind) : Behind := fun reader => do
  let (whole, reader) ← behind reader
  let (whole', reader) ← behind' reader
  return (whole && whole', reader)

def Kind.behind {α : Type} : Kind α → Packet → Behind
  | bool, packet => behindRaw (getRawUInt8 packet)
  | uint width, packet => behindRaw (getRawUInt width.bytes packet)
  | time, packet => behindRaw (getRawTimeT packet)
  | string, packet => behindRaw (getRawString packet)
  | id width _, packet => behindRaw (getId width packet)
  | flags32, packet => fun reader =>
      let (word, reader) := getRawUInt32 packet reader
      some (word.isSome, reader)
  | enum width, packet => behindRaw (getRawUInt width.bytes packet)
  | memBlock initialSize, packet => behindRaw (deserializeMemBlock initialSize packet)
  | vector kind, packet => behindContainer packet (kind.behind packet)
  | list kind, packet => behindContainer packet (kind.behind packet)
  | set kind, packet => behindContainer packet (kind.behind packet)
  | map key value, packet =>
      behindContainer packet (behindPair (key.behind packet) (value.behind packet))
  | pair first second, packet => behindPair (first.behind packet) (second.behind packet)

/-- Every element but the last is whole, and each one is contained itself. -/
def ContainedMany (behind : Behind) (contained : Reader → Prop) : Nat → Reader → Prop
  | 0, _ => True
  | 1, reader => contained reader
  | count + 2, reader => contained reader ∧ ∃ reader', behind reader = some (true, reader') ∧
      ContainedMany behind contained (count + 1) reader'

/-- A count that is announced is no larger than what is left of the packet behind it. -/
def ContainedContainer (packet : Packet) (behind : Behind) (contained : Reader → Prop)
    (reader : Reader) : Prop :=
  ∀ count reader', packet.announced reader = some (count, reader') →
    count ≤ packet.size - reader'.offset ∧ ContainedMany behind contained count reader'

def ContainedPair (behind : Behind) (contained contained' : Reader → Prop) (reader : Reader) : Prop :=
  contained reader ∧ ∀ whole reader', behind reader = some (whole, reader') → contained' reader'

/-- Every container that is reached announces no more elements than bytes are left, and all of them
but the last are there. -/
def Kind.Contained {α : Type} : Kind α → Packet → Reader → Prop
  | vector kind, packet => ContainedContainer packet (kind.behind packet) (kind.Contained packet)
  | list kind, packet => ContainedContainer packet (kind.behind packet) (kind.Contained packet)
  | set kind, packet => ContainedContainer packet (kind.behind packet) (kind.Contained packet)
  | map key value, packet =>
      ContainedContainer packet (behindPair (key.behind packet) (value.behind packet))
        (ContainedPair (key.behind packet) (key.Contained packet) (value.Contained packet))
  | pair first second, packet =>
      ContainedPair (first.behind packet) (first.Contained packet) (second.Contained packet)
  | _, _ => fun _ => True

/-! ### One job against the packet -/

/-- A job reads on as the packet says, and its loops are bounded exactly as far as the packet is. -/
structure Follows {α : Type} (body : ReadContext → α × ReadContext) (observe : ReadContext → Observed)
    (behind : Behind) (contained : Reader → Prop) : Prop where
  dead : ∀ reader, (body ⟨reader, false⟩).2.mOk = false ∧ (observe ⟨reader, false⟩).decoded = false ∧
    ∀ loop ∈ (observe ⟨reader, false⟩).loops, loop.Bounded
  next : ∀ {reader whole reader'}, behind reader = some (whole, reader') →
    (body ⟨reader, true⟩).2 = ⟨reader', true⟩ ∧ (observe ⟨reader, true⟩).decoded = whole
  fails : ∀ {reader}, behind reader = none →
    (body ⟨reader, true⟩).2.mOk = false ∧ (observe ⟨reader, true⟩).decoded = false
  bounded : ∀ reader,
    (∀ loop ∈ (observe ⟨reader, true⟩).loops, loop.Bounded) ↔ contained reader

theorem ReadContext.eq_dead {ctx : ReadContext} (hmOk : ctx.mOk = false) :
    ctx = ⟨ctx.reader, false⟩ := by
  rw [← hmOk]

theorem behindPair_eq_some {behind behind' : Behind} {reader reader' : Reader} {whole : Bool}
    (hbehind : behindPair behind behind' reader = some (whole, reader')) :
    ∃ left between right, behind reader = some (left, between) ∧
      behind' between = some (right, reader') ∧ whole = (left && right) := by
  unfold behindPair at hbehind
  simp only [Option.bind_eq_bind, Option.bind_eq_some_iff, Option.pure_def, Option.some.injEq,
    Prod.mk.injEq, Prod.exists] at hbehind
  obtain ⟨left, between, hleft, right, after, hright, hwhole, rfl⟩ := hbehind
  exact ⟨left, between, right, hleft, hright, hwhole.symm⟩

theorem behindPair_eq_none {behind behind' : Behind} {reader between : Reader} {left : Bool}
    (hleft : behind reader = some (left, between))
    (hbehind : behindPair behind behind' reader = none) : behind' between = none := by
  cases hright : behind' between with
  | none => rfl
  | some right =>
      have hpair : behindPair behind behind' reader = some (left && right.1, right.2) := by
        simp [behindPair, hleft, hright]
      rw [hpair] at hbehind
      cases hbehind

/-- A job that is guarded by `ctx.mOk` and runs no loop. -/
theorem Follows.process {α : Type} (raw : Reader → Option α × Reader) (initial : α) :
    Follows (fun ctx => ctx.process raw initial)
      (fun ctx => ⟨(ctx.process raw initial).2.mOk, []⟩) (behindRaw raw) fun _ => True where
  dead _ := ⟨rfl, rfl, nofun⟩
  next := by
    intro reader whole reader' hbehind
    unfold behindRaw at hbehind
    unfold ReadContext.process
    split at hbehind
    · next value after hraw =>
        cases hbehind
        simp [hraw]
    · cases hbehind
  fails := by
    intro reader hbehind
    unfold behindRaw at hbehind
    unfold ReadContext.process
    split at hbehind
    · cases hbehind
    · next after hraw => simp [hraw]
  bounded _ := iff_of_true nofun trivial

theorem behindRaw_map {α β : Type} (raw : Reader → Option α × Reader) (f : α → β) :
    behindRaw (fun reader => ((raw reader).1.map f, (raw reader).2)) = behindRaw raw := by
  funext reader
  unfold behindRaw
  beta_reduce
  rcases raw reader with ⟨out, after⟩
  cases out <;> rfl

/-- The same for a raw value that is converted. -/
theorem Follows.processMap {α β : Type} (raw : Reader → Option α × Reader) (f : α → β)
    (initial : β) :
    Follows (fun ctx => ctx.process (fun reader => ((raw reader).1.map f, (raw reader).2)) initial)
      (fun ctx =>
        ⟨(ctx.process (fun reader => ((raw reader).1.map f, (raw reader).2)) initial).2.mOk, []⟩)
      (behindRaw raw) fun _ => True := by
  rw [← behindRaw_map raw f]
  exact .process _ initial

theorem Follows.pair {α β : Type} {first : ReadContext → α × ReadContext}
    {second : ReadContext → β × ReadContext} {observe observe' : ReadContext → Observed}
    {behind behind' : Behind} {contained contained' : Reader → Prop}
    (hfirst : Follows first observe behind contained)
    (hsecond : Follows second observe' behind' contained') :
    Follows (fun ctx => (((first ctx).1, (second (first ctx).2).1), (second (first ctx).2).2))
      (observePair first observe observe') (behindPair behind behind')
      (ContainedPair behind contained contained') where
  dead reader := by
    obtain ⟨hmOk, hdecoded, hloops⟩ := hfirst.dead reader
    have hafter := ReadContext.eq_dead hmOk
    obtain ⟨hmOk', _, hloops'⟩ := hsecond.dead (first ⟨reader, false⟩).2.reader
    unfold observePair
    dsimp only
    rw [hafter, hdecoded]
    refine ⟨hmOk', rfl, fun loop hmem => ?_⟩
    exact (List.mem_append.mp hmem).elim (hloops loop) (hloops' loop)
  next := by
    intro reader whole reader' hbehind
    obtain ⟨left, between, right, hleft, hright, rfl⟩ := behindPair_eq_some hbehind
    obtain ⟨hctx, hdecoded⟩ := hfirst.next hleft
    obtain ⟨hctx', hdecoded'⟩ := hsecond.next hright
    unfold observePair
    dsimp only
    rw [hctx, hctx', hdecoded, hdecoded']
    exact ⟨rfl, rfl⟩
  fails := by
    intro reader hbehind
    unfold observePair
    dsimp only
    cases hleft : behind reader with
    | none =>
        obtain ⟨hmOk, hdecoded⟩ := hfirst.fails hleft
        rw [ReadContext.eq_dead hmOk, hdecoded]
        exact ⟨(hsecond.dead _).1, rfl⟩
    | some left =>
        obtain ⟨whole, between⟩ := left
        obtain ⟨hctx, hdecoded⟩ := hfirst.next hleft
        obtain ⟨hmOk, hdecoded'⟩ := hsecond.fails (behindPair_eq_none hleft hbehind)
        rw [hctx, hdecoded', Bool.and_false]
        exact ⟨hmOk, rfl⟩
  bounded reader := by
    unfold observePair ContainedPair
    dsimp only
    rw [← hfirst.bounded reader, List.forall_mem_append]
    refine and_congr_right fun _ => ?_
    cases hleft : behind reader with
    | none =>
        rw [ReadContext.eq_dead (hfirst.fails hleft).1]
        exact iff_of_true (hsecond.dead _).2.2 nofun
    | some left =>
        obtain ⟨whole, between⟩ := left
        rw [(hfirst.next hleft).1, hsecond.bounded between]
        exact ⟨fun hcontained _ _ heq => by cases heq; exact hcontained, fun hall => hall _ _ rfl⟩

/-! ### Loops -/

section Elements

variable {α : Type} {body : ReadContext → α × ReadContext} {observe : ReadContext → Observed}
variable {behind : Behind} {contained : Reader → Prop}

theorem readMany_dead (hbody : Follows body observe behind contained) (count : Nat) :
    ∀ reader, (readMany body count ⟨reader, false⟩).2.mOk = false := by
  induction count with
  | zero => exact fun _ => rfl
  | succ count ih =>
      intro reader
      rw [readMany]
      dsimp only
      rw [ReadContext.eq_dead (hbody.dead reader).1]
      exact ih _

theorem readMany_next (hbody : Follows body observe behind contained) {count : Nat} :
    ∀ {reader whole reader'}, behindMany behind count reader = some (whole, reader') →
      (readMany body count ⟨reader, true⟩).2 = ⟨reader', true⟩ ∧
        (observeMany body observe count ⟨reader, true⟩).all Observed.decoded = whole := by
  induction count with
  | zero =>
      intro reader whole reader' hbehind
      cases hbehind
      exact ⟨rfl, rfl⟩
  | succ count ih =>
      intro reader whole reader' hbehind
      obtain ⟨left, between, others, hleft, hothers, rfl⟩ := behindPair_eq_some hbehind
      obtain ⟨hctx, hdecoded⟩ := hbody.next hleft
      rw [readMany, observeMany, List.all_cons]
      dsimp only
      rw [hctx, hdecoded]
      exact ⟨(ih hothers).1, congrArg (left && ·) (ih hothers).2⟩

theorem readMany_fails (hbody : Follows body observe behind contained) {count : Nat} :
    ∀ {reader}, behindMany behind count reader = none →
      (readMany body count ⟨reader, true⟩).2.mOk = false ∧
        (observeMany body observe count ⟨reader, true⟩).all Observed.decoded = false := by
  induction count with
  | zero => exact nofun
  | succ count ih =>
      intro reader hbehind
      rw [readMany, observeMany, List.all_cons]
      dsimp only
      cases hleft : behind reader with
      | none =>
          obtain ⟨hmOk, hdecoded⟩ := hbody.fails hleft
          rw [ReadContext.eq_dead hmOk, hdecoded]
          exact ⟨readMany_dead hbody count _, rfl⟩
      | some left =>
          obtain ⟨whole, between⟩ := left
          have hothers := behindPair_eq_none hleft hbehind
          rw [(hbody.next hleft).1, (ih hothers).2, Bool.and_false]
          exact ⟨(ih hothers).1, rfl⟩

/-- The loop goes on behind an element only if that element is whole. -/
theorem observeMany_bounded (hbody : Follows body observe behind contained) {count : Nat} :
    ∀ {reader},
      ((∀ decoded ∈ ((observeMany body observe count ⟨reader, true⟩).map Observed.decoded).dropLast,
          decoded = true) ∧
        ∀ loop ∈ (observeMany body observe count ⟨reader, true⟩).flatMap Observed.loops,
          loop.Bounded) ↔ ContainedMany behind contained count reader := by
  induction count with
  | zero => exact iff_of_true ⟨nofun, nofun⟩ trivial
  | succ count ih =>
      intro reader
      have hfirst := hbody.bounded reader
      cases count with
      | zero =>
          rw [ContainedMany, ← hfirst]
          simp [observeMany]
      | succ count =>
          have hmore : observeMany body observe (count + 1 + 1) ⟨reader, true⟩ =
              observe ⟨reader, true⟩ :: observeMany body observe (count + 1) (body ⟨reader, true⟩).2 :=
            rfl
          have hdrop : ∀ ctx : ReadContext,
              ((observe ⟨reader, true⟩).decoded ::
                (observeMany body observe (count + 1) ctx).map Observed.decoded).dropLast =
              (observe ⟨reader, true⟩).decoded ::
                ((observeMany body observe (count + 1) ctx).map Observed.decoded).dropLast :=
            fun _ => rfl
          rw [ContainedMany, hmore, List.map_cons, hdrop, List.forall_mem_cons, List.flatMap_cons,
            List.forall_mem_append, hfirst]
          cases hleft : behind reader with
          | none =>
              rw [(hbody.fails hleft).2]
              exact iff_of_false (fun h => Bool.false_ne_true h.1.1) (fun ⟨_, _, h, _⟩ => by cases h)
          | some left =>
              obtain ⟨whole, between⟩ := left
              rw [(hbody.next hleft).1, (hbody.next hleft).2]
              constructor
              · rintro ⟨⟨rfl, hdecoded⟩, hcontained, hloops⟩
                exact ⟨hcontained, between, rfl, ih.mp ⟨hdecoded, hloops⟩⟩
              · rintro ⟨hcontained, reader', heq, hmany⟩
                cases heq
                obtain ⟨hdecoded, hloops⟩ := ih.mpr hmany
                exact ⟨⟨rfl, hdecoded⟩, hcontained, hloops⟩

theorem readCount_announced {packet : Packet} {count : Nat} {reader reader' : Reader}
    (hcount : packet.announced reader = some (count, reader')) :
    ∃ word, ReadContext.readCount packet ⟨reader, true⟩ = (word, ⟨reader', true⟩) ∧
      word.toNat = count := by
  unfold Packet.announced at hcount
  split at hcount
  · next number after hword =>
      cases hcount
      have hlt : count < 2 ^ 32 := by
        unfold getRawUInt32 getRawUInt at hword
        split at hword
        · cases hword
        · cases hword
          have hlength : ((reader.take packet 4).1).length = 4 := length_slice _ _ _
          have hbelow := ofBigEndian_lt (reader.take packet 4).1
          rw [hlength] at hbelow
          exact hbelow
      refine ⟨BitVec.ofNat 32 count, ?_, ?_⟩
      · unfold getRawUInt32 at hword
        simp only [ReadContext.readCount, ReadContext.readUInt, ReadContext.process, Width.bytes, hword,
          ↓reduceIte]
        rfl
      · rw [BitVec.toNat_ofNat, Nat.mod_eq_of_lt hlt]
  · cases hcount

theorem readCount_missing {packet : Packet} {reader : Reader}
    (hcount : packet.announced reader = none) :
    ∃ reader', ReadContext.readCount packet ⟨reader, true⟩ = (0, ⟨reader', false⟩) := by
  unfold Packet.announced at hcount
  split at hcount
  · cases hcount
  · next after hword =>
      refine ⟨after, ?_⟩
      unfold getRawUInt32 at hword
      simp only [ReadContext.readCount, ReadContext.readUInt, ReadContext.process, Width.bytes, hword,
        ↓reduceIte]
      rfl

/-- Nothing is read for a count of `0`. -/
theorem observeContainer_dead (packet : Packet) {ctx : ReadContext} {reader : Reader}
    (hcount : ctx.readCount packet = (0, ⟨reader, false⟩)) :
    observeContainer packet body observe ctx = ⟨false, [⟨packet.size - reader.offset, 0, []⟩]⟩ := by
  unfold observeContainer
  rw [hcount]
  rfl

theorem Loop.bounded_of_none (remaining : Nat) : Loop.Bounded ⟨remaining, 0, []⟩ :=
  ⟨Nat.zero_le _, nofun⟩

/-- A container, whose loop runs as often as its count says. -/
theorem Follows.container (packet : Packet) (hbody : Follows body observe behind contained) :
    Follows (fun ctx => readMany body (ctx.readCount packet).1.toNat (ctx.readCount packet).2)
      (observeContainer packet body observe) (behindContainer packet behind)
      (ContainedContainer packet behind contained) where
  dead reader := by
    have hcount : ReadContext.readCount packet ⟨reader, false⟩ = (0, ⟨reader, false⟩) := rfl
    rw [observeContainer_dead packet hcount]
    exact ⟨rfl, rfl, List.forall_mem_singleton.mpr (Loop.bounded_of_none _)⟩
  next := by
    intro reader whole reader' hbehind
    obtain ⟨⟨count, between⟩, hannounced, hmany⟩ := Option.bind_eq_some_iff.mp hbehind
    obtain ⟨word, hcount, rfl⟩ := readCount_announced hannounced
    obtain ⟨hctx, hdecoded⟩ := readMany_next hbody hmany
    unfold observeContainer
    rw [hcount]
    exact ⟨hctx, hdecoded⟩
  fails := by
    intro reader hbehind
    cases hannounced : packet.announced reader with
    | none =>
        obtain ⟨after, hcount⟩ := readCount_missing hannounced
        rw [observeContainer_dead packet hcount, hcount]
        exact ⟨rfl, rfl⟩
    | some counted =>
        obtain ⟨count, between⟩ := counted
        obtain ⟨word, hcount, rfl⟩ := readCount_announced hannounced
        have hmany : behindMany behind word.toNat between = none := by
          unfold behindContainer at hbehind
          rw [hannounced] at hbehind
          exact hbehind
        obtain ⟨hmOk, hdecoded⟩ := readMany_fails hbody hmany
        unfold observeContainer
        rw [hcount]
        exact ⟨hmOk, hdecoded⟩
  bounded reader := by
    unfold ContainedContainer
    cases hannounced : packet.announced reader with
    | none =>
        obtain ⟨after, hcount⟩ := readCount_missing hannounced
        rw [observeContainer_dead packet hcount]
        exact iff_of_true (List.forall_mem_singleton.mpr (Loop.bounded_of_none _)) nofun
    | some counted =>
        obtain ⟨count, between⟩ := counted
        obtain ⟨word, hcount, rfl⟩ := readCount_announced hannounced
        have hmany : _ ↔ ContainedMany behind contained word.toNat between :=
          observeMany_bounded hbody
        have hcreated := length_readMany body word.toNat ⟨between, true⟩
        unfold observeContainer
        rw [hcount]
        dsimp only
        rw [List.forall_mem_cons, Loop.Bounded, and_assoc, hmany, hcreated]
        exact ⟨fun hboth _ _ heq => by cases heq; exact hboth, fun hall => hall _ _ rfl⟩

end Elements

/-- Every field kind reads on as the packet says. -/
theorem Kind.follows {α : Type} (kind : Kind α) (packet : Packet) :
    Follows (kind.deserialize packet) (kind.observe packet) (kind.behind packet)
      (kind.Contained packet) := by
  induction kind with
  | bool => exact .processMap (getRawUInt8 packet) (· != 0) false
  | uint width => exact .processMap (getRawUInt width.bytes packet) (BitVec.ofNat _) 0
  | time => exact .process _ 0
  | string => exact .process _ []
  | id width hwidth => exact .process _ _
  | flags32 =>
      exact {
        dead := fun _ => ⟨rfl, rfl, nofun⟩
        next := fun hbehind => by cases hbehind; exact ⟨rfl, Bool.true_and _⟩
        fails := nofun
        bounded := fun _ => iff_of_true nofun trivial }
  | enum width => exact .processMap (getRawUInt width.bytes packet) (BitVec.ofNat _) 0
  | memBlock initialSize => exact .process _ _
  | vector kind ih =>
      have hcontainer := ih.container packet
      exact ⟨hcontainer.dead, hcontainer.next, hcontainer.fails, hcontainer.bounded⟩
  | list kind ih => exact ih.container packet
  | @set α order kind ih =>
      have hcontainer := ih.container packet
      exact ⟨hcontainer.dead, hcontainer.next, hcontainer.fails, hcontainer.bounded⟩
  | map key value ihKey ihValue =>
      have hcontainer := (ihKey.pair ihValue).container packet
      exact ⟨hcontainer.dead, hcontainer.next, hcontainer.fails, hcontainer.bounded⟩
  | pair first second ihFirst ihSecond => exact ihFirst.pair ihSecond

/-- **Container loops.** Whatever field is read, each loop that is run for it creates no more elements
than bytes are left in the packet and stops at an element that is not decoded, if and only if reading
has failed before or every container that is reached announces no more elements than that and holds
all of them but the last. -/
theorem Kind.loops_bounded_iff {α : Type} (kind : Kind α) (packet : Packet) (ctx : ReadContext) :
    (∀ loop ∈ (kind.observe packet ctx).loops, loop.Bounded) ↔
      (ctx.mOk = true → kind.Contained packet ctx.reader) := by
  obtain ⟨reader, mOk⟩ := ctx
  cases mOk with
  | false => exact iff_of_true ((kind.follows packet).dead reader).2.2 nofun
  | true => exact ((kind.follows packet).bounded reader).trans ⟨fun h _ => h, fun h => h rfl⟩

/-- A count of `1` with nothing behind it. -/
theorem Kind.loops_bounded_counterexample :
    ¬∀ (α : Type) (kind : Kind α) (packet : Packet) (ctx : ReadContext),
      ∀ loop ∈ (kind.observe packet ctx).loops, loop.Bounded := by
  intro hall
  have hloop := hall _ (.list .bool) ⟨fun i => [0, 0, 0, 1].getD i 0, 4⟩ ⟨⟨0, []⟩, true⟩ ⟨0, 1, [false]⟩
    (by exact List.mem_singleton.mpr rfl)
  exact absurd hloop.1 (by decide)

end RetroShare.Serialiser
