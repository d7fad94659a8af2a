import RetroShare.Serialiser.GenericSerializer

/-!
# Reads outside the packet

The layout of a packet is followed here in exact arithmetic: where each field starts, and whether
reading has failed before it. `Honest` is the condition under which no field is read past the end,
and the deserialiser reads outside the packet exactly when it fails.
-/

namespace RetroShare.Serialiser

open Bytes

/-- Where the next field starts, and whether every field before it was read. -/
structure Position where
  start : Nat
  live : Bool

/-- The 32-bit number at an offset. -/
def Packet.word (packet : Packet) (offset : Nat) : Nat := ofBigEndian (slice packet.data offset 4)

/-- After a field of `width` bytes that is looked at. -/
def Packet.afterField (packet : Packet) (width offset : Nat) : Position :=
  if offset + width ≤ packet.size then ⟨offset + width, true⟩ else ⟨offset, false⟩

/-- After a string that is looked at: its length word, then its content. -/
def Packet.afterString (packet : Packet) (offset : Nat) : Position :=
  if offset + 4 ≤ packet.size then
    if offset + 4 + packet.word offset ≤ packet.size then ⟨offset + 4 + packet.word offset, true⟩
    else ⟨offset + 4, false⟩
  else ⟨offset, false⟩

/-- The length that a binary block claims, or the one its size member had before. -/
def Packet.claimed (packet : Packet) (initialSize offset : Nat) : Nat :=
  if offset + 4 ≤ packet.size then packet.word offset else initialSize

def Packet.afterMemBlock (packet : Packet) (initialSize offset : Nat) : Position :=
  if offset + 4 ≤ packet.size ∧ packet.claimed initialSize offset ≤ maxSerializedChunkSize then
    ⟨offset + 4 + packet.claimed initialSize offset, true⟩
  else ⟨offset, false⟩

/-- Fields after a failure are not looked at. -/
def Position.via (here : Position) (after : Nat → Position) : Position :=
  if here.live then after here.start else here

def Position.skip (packet : Packet) (width : Nat) (here : Position) : Position :=
  here.via (packet.afterField width)

/-- The element count that a container finds. -/
def Position.count (packet : Packet) (here : Position) : Nat :=
  if here.live ∧ here.start + 4 ≤ packet.size then packet.word here.start else 0

def skipMany (skip : Position → Position) : Nat → Position → Position
  | 0, here => here
  | count + 1, here => skipMany skip count (skip here)

def HonestMany (honest : Position → Prop) (skip : Position → Position) : Nat → Position → Prop
  | 0, _ => True
  | count + 1, here => honest here ∧ HonestMany honest skip count (skip here)

/-- After a field of this kind. -/
def Kind.skip {α : Type} : Kind α → Packet → Position → Position
  | bool, packet, here => here.skip packet 1
  | uint width, packet, here => here.skip packet width.bytes
  | time, packet, here => here.skip packet 8
  | string, packet, here => here.via packet.afterString
  | id width _, packet, here => here.skip packet width
  | flags32, packet, here =>
      if here.start + 4 ≤ packet.size then ⟨here.start + 4, here.live⟩ else here
  | enum width, packet, here => here.skip packet width.bytes
  | memBlock initialSize, packet, here => here.via (packet.afterMemBlock initialSize)
  | vector kind, packet, here =>
      skipMany (kind.skip packet) (here.count packet) (here.skip packet 4)
  | list kind, packet, here =>
      skipMany (kind.skip packet) (here.count packet) (here.skip packet 4)
  | set kind, packet, here =>
      skipMany (kind.skip packet) (here.count packet) (here.skip packet 4)
  | map key value, packet, here =>
      skipMany (fun here => value.skip packet (key.skip packet here)) (here.count packet)
        (here.skip packet 4)
  | pair first second, packet, here => second.skip packet (first.skip packet here)

/-- A field of `width` bytes that is looked at ends below `2 ^ 32`. -/
def Position.Below (width : Nat) (here : Position) : Prop :=
  here.live = true → here.start + width < 2 ^ 32

/-- A binary block that is copied lies in what is left of the packet. -/
def Packet.BlockFits (packet : Packet) (initialSize offset : Nat) : Prop :=
  offset + 4 < 2 ^ 32 ∧
    (packet.claimed initialSize offset ≤ maxSerializedChunkSize →
      packet.claimed initialSize offset = 0 ∨
        (if offset + 4 ≤ packet.size then offset + 4 else offset) +
          packet.claimed initialSize offset ≤ packet.size)

/-- Every field that is looked at ends below `2 ^ 32`, and no binary block that is copied claims more
bytes than are left. -/
def Kind.Honest {α : Type} : Kind α → Packet → Position → Prop
  | bool, _, here => here.Below 1
  | uint width, _, here => here.Below width.bytes
  | time, _, here => here.Below 8
  | string, _, here => here.Below 4
  | id width _, _, here => here.Below width
  | flags32, _, here => here.start + 4 < 2 ^ 32
  | enum width, _, here => here.Below width.bytes
  | memBlock initialSize, packet, here =>
      here.live = true → packet.BlockFits initialSize here.start
  | vector kind, packet, here =>
      here.Below 4 ∧
        HonestMany (kind.Honest packet) (kind.skip packet) (here.count packet) (here.skip packet 4)
  | list kind, packet, here =>
      here.Below 4 ∧
        HonestMany (kind.Honest packet) (kind.skip packet) (here.count packet) (here.skip packet 4)
  | set kind, packet, here =>
      here.Below 4 ∧
        HonestMany (kind.Honest packet) (kind.skip packet) (here.count packet) (here.skip packet 4)
  | map key value, packet, here =>
      here.Below 4 ∧
        HonestMany (fun here => key.Honest packet here ∧ value.Honest packet (key.skip packet here))
          (fun here => value.skip packet (key.skip packet here)) (here.count packet)
          (here.skip packet 4)
  | pair first second, packet, here =>
      first.Honest packet here ∧ second.Honest packet (first.skip packet here)

def Members.Honest {α : Type} : Members α → Packet → Position → Prop
  | nil, _, _ => True
  | cons kind rest, packet, here =>
      kind.Honest packet here ∧ rest.Honest packet (kind.skip packet here)

/-- Reading this run of bytes stays inside the packet. -/
def Packet.Covers (packet : Packet) (read : Nat × Nat) : Prop :=
  ∀ i, read.1 ≤ i → i < read.1 + read.2 → i < packet.size

/-! ### One job against the layout -/

/-- The reader stands at this position of the layout. -/
structure At (packet : Packet) (here : Position) (ctx : ReadContext) : Prop where
  offset_eq : ctx.reader.offset = here.start
  mOk_eq : ctx.mOk = here.live
  start_le : here.start ≤ packet.size

/-- From a position of the layout, a job whose field is honest reads inside the packet and arrives at
the next position; a job whose field is not reads outside. -/
structure Confined {α : Type} (packet : Packet) (job : ReadContext → α × ReadContext)
    (honest : Position → Prop) (skip : Position → Position) : Prop where
  keeps : ∀ ctx, ctx.reader.reads ⊆ (job ctx).2.reader.reads
  arrives : ∀ {ctx here}, At packet here ctx → honest here → At packet (skip here) (job ctx).2
  inside : ∀ {ctx here}, At packet here ctx → honest here →
    ∀ read ∈ (job ctx).2.reader.reads, read ∈ ctx.reader.reads ∨ packet.Covers read
  outside : ∀ {ctx here}, At packet here ctx → ¬ honest here →
    ∃ read ∈ (job ctx).2.reader.reads, ¬ packet.Covers read

section Jobs

variable {packet : Packet}

theorem covers_of_le {start count : Nat} (hle : start + count ≤ packet.size) :
    packet.Covers (start, count) := by
  intro i _ hi
  exact Nat.lt_of_lt_of_le hi hle

theorem not_covers_of_lt {start count : Nat} (hcount : 0 < count)
    (hlt : packet.size < start + count) : ¬ packet.Covers (start, count) := by
  intro hcovers
  have hlast := hcovers (start + count - 1) (by change start ≤ _; omega)
    (by change _ < start + count; omega)
  omega

theorem Confined.map {α β : Type} {job : ReadContext → α × ReadContext}
    {honest : Position → Prop} {skip : Position → Position} (f : α → β)
    (hjob : Confined packet job honest skip) :
    Confined packet (fun ctx => (f (job ctx).1, (job ctx).2)) honest skip :=
  ⟨hjob.keeps, hjob.arrives, hjob.inside, hjob.outside⟩

theorem Confined.pair {α β : Type} {first : ReadContext → α × ReadContext}
    {second : ReadContext → β × ReadContext} {honest honest' : Position → Prop}
    {skip skip' : Position → Position} (hfirst : Confined packet first honest skip)
    (hsecond : Confined packet second honest' skip') :
    Confined packet
      (fun ctx => (((first ctx).1, (second (first ctx).2).1), (second (first ctx).2).2))
      (fun here => honest here ∧ honest' (skip here)) (fun here => skip' (skip here)) where
  keeps ctx := List.Subset.trans (hfirst.keeps ctx) (hsecond.keeps (first ctx).2)
  arrives hat hhonest := hsecond.arrives (hfirst.arrives hat hhonest.1) hhonest.2
  inside := by
    intro ctx here hat hhonest read hread
    cases hsecond.inside (hfirst.arrives hat hhonest.1) hhonest.2 read hread with
    | inl hearlier => exact hfirst.inside hat hhonest.1 read hearlier
    | inr hcovers => exact Or.inr hcovers
  outside := by
    intro ctx here hat hnot
    by_cases hhonest : honest here
    · exact hsecond.outside (hfirst.arrives hat hhonest) fun hnext => hnot ⟨hhonest, hnext⟩
    · obtain ⟨read, hread, hbad⟩ := hfirst.outside hat hhonest
      exact ⟨read, hsecond.keeps _ hread, hbad⟩

theorem Confined.many {α : Type} {body : ReadContext → α × ReadContext}
    {honest : Position → Prop} {skip : Position → Position}
    (hbody : Confined packet body honest skip) (count : Nat) :
    Confined packet (readMany body count) (HonestMany honest skip count) (skipMany skip count) := by
  induction count with
  | zero =>
      exact ⟨fun _ => List.Subset.refl _, fun hat _ => hat, fun _ _ _ hread => Or.inl hread,
        fun _ hnot => absurd trivial hnot⟩
  | succ count ih => exact (hbody.pair ih).map fun read => read.1 :: read.2

/-- A raw reader of `width` bytes with the usual check. -/
def ReadsFixed {α : Type} (packet : Packet) (width : Nat) (raw : Reader → Option α × Reader) : Prop :=
  ∀ reader : Reader,
    if packet.size < Word.add 32 reader.offset width then raw reader = (none, reader)
    else ∃ value, raw reader = (some value, (reader.take packet width).2)

theorem readsFixed_getRawUInt (width : Nat) : ReadsFixed packet width (getRawUInt width packet) := by
  intro reader
  split
  · next hshort => exact if_pos hshort
  · next hlong => exact ⟨_, if_neg hlong⟩

theorem ReadsFixed.option_map {α β : Type} {width : Nat} {raw : Reader → Option α × Reader}
    (hraw : ReadsFixed packet width raw) (f : α → β) :
    ReadsFixed packet width fun reader => ((raw reader).1.map f, (raw reader).2) := by
  intro reader
  have hreader := hraw reader
  split
  · next hshort =>
      rw [if_pos hshort] at hreader
      beta_reduce
      rw [hreader, Option.map_none]
  · next hlong =>
      rw [if_neg hlong] at hreader
      obtain ⟨value, hvalue⟩ := hreader
      exact ⟨f value, by beta_reduce; rw [hvalue, Option.map_some]⟩

variable (hsize : packet.size < 2 ^ 32)

include hsize in
/-- The check is exact unless it wraps, and when it wraps it always passes. -/
theorem short_iff {offset width : Nat} (hoffset : offset ≤ packet.size) (hwidth : width < 2 ^ 32) :
    packet.size < Word.add 32 offset width ↔
      packet.size < offset + width ∧ offset + width < 2 ^ 32 := by
  unfold Word.add
  by_cases hwrap : offset + width < 2 ^ 32
  · rw [Nat.mod_eq_of_lt hwrap]
    exact ⟨fun hlt => ⟨hlt, hwrap⟩, fun h => h.1⟩
  · have hmod : (offset + width) % 2 ^ 32 = offset + width - 2 ^ 32 := by
      rw [Nat.mod_eq_sub_mod (by omega), Nat.mod_eq_of_lt (by omega)]
    rw [hmod]
    omega

/-- A guarded reader is judged by what its raw reader does from an offset inside the packet. -/
theorem Confined.process {α : Type} {raw : Reader → Option α × Reader} (honest : Nat → Prop)
    (next : Nat → Position) (hkeeps : ∀ reader, reader.reads ⊆ (raw reader).2.reads)
    (hgood : ∀ reader, reader.offset ≤ packet.size → honest reader.offset →
      At packet (next reader.offset) ⟨(raw reader).2, (raw reader).1.isSome⟩ ∧
        ∀ read ∈ (raw reader).2.reads, read ∈ reader.reads ∨ packet.Covers read)
    (hbad : ∀ reader, reader.offset ≤ packet.size → ¬ honest reader.offset →
      ∃ read ∈ (raw reader).2.reads, ¬ packet.Covers read) (initial : α) :
    Confined packet (fun ctx => ctx.process raw initial)
      (fun here => here.live = true → honest here.start) (fun here => here.via next) where
  keeps := by
    rintro ⟨reader, mOk⟩
    cases mOk with
    | false => exact List.Subset.refl _
    | true => exact hkeeps reader
  arrives := by
    rintro ⟨reader, mOk⟩ ⟨start, live⟩ ⟨hoffset, hmOk, hstart⟩ hhonest
    cases hoffset
    cases hmOk
    cases mOk with
    | false => exact ⟨rfl, rfl, hstart⟩
    | true => exact (hgood reader hstart (hhonest rfl)).1
  inside := by
    rintro ⟨reader, mOk⟩ ⟨start, live⟩ ⟨hoffset, hmOk, hstart⟩ hhonest read hread
    cases hoffset
    cases hmOk
    cases mOk with
    | false => exact Or.inl hread
    | true => exact (hgood reader hstart (hhonest rfl)).2 read hread
  outside := by
    rintro ⟨reader, mOk⟩ ⟨start, live⟩ ⟨hoffset, hmOk, hstart⟩ hnot
    cases hoffset
    cases hmOk
    cases mOk with
    | false => exact absurd nofun hnot
    | true => exact hbad reader hstart fun hhonest => hnot fun _ => hhonest

theorem mem_cons_covers {reads : List (Nat × Nat)} {start count : Nat}
    (hle : start + count ≤ packet.size) :
    ∀ read ∈ (start, count) :: reads, read ∈ reads ∨ packet.Covers read := by
  intro read hread
  cases List.mem_cons.mp hread with
  | inl hnew => exact Or.inr (hnew ▸ covers_of_le hle)
  | inr hold => exact Or.inl hold

include hsize in
theorem Confined.fixed {α : Type} {width : Nat} {raw : Reader → Option α × Reader}
    (hraw : ReadsFixed packet width raw) (hwidth : 0 < width ∧ width < 2 ^ 32) (initial : α) :
    Confined packet (fun ctx => ctx.process raw initial) (Position.Below width)
      (Position.skip packet width) := by
  refine Confined.process (fun offset => offset + width < 2 ^ 32) (packet.afterField width)
    ?_ ?_ ?_ initial
  · intro reader
    have hreader := hraw reader
    split at hreader
    · rw [hreader]
      exact List.Subset.refl _
    · obtain ⟨value, hvalue⟩ := hreader
      rw [hvalue]
      exact List.subset_cons_self _ _
  · intro reader hstart hend
    have hreader := hraw reader
    simp only [short_iff hsize hstart hwidth.2, hend, and_true] at hreader
    unfold Packet.afterField
    by_cases hfits : reader.offset + width ≤ packet.size
    · rw [if_neg (Nat.not_lt.mpr hfits)] at hreader
      obtain ⟨value, hvalue⟩ := hreader
      rw [hvalue, if_pos hfits]
      exact ⟨⟨Word.add_of_lt hend, rfl, hfits⟩, mem_cons_covers hfits⟩
    · rw [if_pos (Nat.lt_of_not_le hfits)] at hreader
      rw [hreader, if_neg hfits]
      exact ⟨⟨rfl, rfl, hstart⟩, fun _ hread => Or.inl hread⟩
  · intro reader hstart hend
    have hreader := hraw reader
    simp only [short_iff hsize hstart hwidth.2, hend, and_false, if_false] at hreader
    obtain ⟨value, hvalue⟩ := hreader
    refine ⟨(reader.offset, width), ?_, not_covers_of_lt hwidth.1 (by omega)⟩
    rw [hvalue]
    exact List.mem_cons_self

/-- What the length word of a string, a block or a container gives. -/
inductive WordOutcome (packet : Packet) (reader : Reader) : Option Nat × Reader → Prop
  | short (hend : reader.offset + 4 < 2 ^ 32) (hshort : ¬ reader.offset + 4 ≤ packet.size) :
      WordOutcome packet reader (none, reader)
  | read (hend : reader.offset + 4 < 2 ^ 32) (hfits : reader.offset + 4 ≤ packet.size) :
      WordOutcome packet reader (some (packet.word reader.offset),
        ⟨reader.offset + 4, (reader.offset, 4) :: reader.reads⟩)
  | wrapped (hend : ¬ reader.offset + 4 < 2 ^ 32) (word : Nat) (offset : Nat) :
      WordOutcome packet reader (some word, ⟨offset, (reader.offset, 4) :: reader.reads⟩)

include hsize in
theorem getRawUInt32_outcome {reader : Reader} (hstart : reader.offset ≤ packet.size) :
    WordOutcome packet reader (getRawUInt32 packet reader) := by
  unfold getRawUInt32 getRawUInt
  by_cases hend : reader.offset + 4 < 2 ^ 32
  · by_cases hfits : reader.offset + 4 ≤ packet.size
    · have hlong : ¬ packet.size < Word.add 32 reader.offset 4 := by
        rw [short_iff hsize hstart (by decide)]
        omega
      have hadd : Word.add 32 reader.offset 4 = reader.offset + 4 := Word.add_of_lt hend
      have htake : reader.take packet 4 = (slice packet.data reader.offset 4,
          ⟨reader.offset + 4, (reader.offset, 4) :: reader.reads⟩) := by rw [Reader.take, hadd]
      rw [if_neg hlong, htake]
      exact WordOutcome.read hend hfits
    · have hshort : packet.size < Word.add 32 reader.offset 4 := by
        rw [short_iff hsize hstart (by decide)]
        omega
      rw [if_pos hshort]
      exact WordOutcome.short hend hfits
  · have hlong : ¬ packet.size < Word.add 32 reader.offset 4 := by
      rw [short_iff hsize hstart (by decide)]
      omega
    rw [if_neg hlong]
    exact WordOutcome.wrapped hend _ _

theorem getRawUInt32_keeps (packet : Packet) (reader : Reader) :
    reader.reads ⊆ (getRawUInt32 packet reader).2.reads := by
  unfold getRawUInt32 getRawUInt
  split
  · exact List.Subset.refl _
  · exact List.subset_cons_self _ _

theorem word_lt (offset : Nat) : packet.word offset < 2 ^ 32 := by
  have hlt := ofBigEndian_lt (slice packet.data offset 4)
  rw [length_slice] at hlt
  exact hlt

include hsize in
theorem confined_string :
    Confined packet (Kind.string.deserialize packet) (Kind.string.Honest packet)
      (Kind.string.skip packet) := by
  refine Confined.process (fun offset => offset + 4 < 2 ^ 32) packet.afterString ?_ ?_ ?_ []
  · intro reader
    have hkeeps := getRawUInt32_keeps packet reader
    unfold getRawString
    revert hkeeps
    generalize getRawUInt32 packet reader = outcome
    rcases outcome with ⟨word | len, after⟩
    · exact fun hkeeps => hkeeps
    · intro hkeeps
      simp only
      split
      · exact hkeeps
      · exact List.Subset.trans hkeeps (List.subset_cons_self _ _)
  · intro reader hstart hend
    have houtcome := getRawUInt32_outcome hsize hstart
    unfold getRawString Packet.afterString
    revert houtcome
    generalize getRawUInt32 packet reader = outcome
    intro houtcome
    cases houtcome with
    | short _ hshort =>
        simp only
        rw [if_neg hshort]
        exact ⟨⟨rfl, rfl, hstart⟩, fun _ hread => Or.inl hread⟩
    | read _ hfits =>
        simp only
        rw [if_pos hfits]
        by_cases hall : reader.offset + 4 + packet.word reader.offset ≤ packet.size
        · have hguard : ¬ (packet.size < packet.word reader.offset ∨
              packet.size - packet.word reader.offset < reader.offset + 4) := by omega
          have hadd : Word.add 32 (reader.offset + 4) (packet.word reader.offset) =
              reader.offset + 4 + packet.word reader.offset := Word.add_of_lt (by omega)
          rw [if_neg hguard, if_pos hall, Reader.take, hadd]
          refine ⟨⟨rfl, rfl, hall⟩, ?_⟩
          intro read hread
          cases mem_cons_covers hall read hread with
          | inl hword => exact mem_cons_covers hfits read hword
          | inr hcovers => exact Or.inr hcovers
        · have hguard : packet.size < packet.word reader.offset ∨
              packet.size - packet.word reader.offset < reader.offset + 4 := by omega
          rw [if_pos hguard, if_neg hall]
          exact ⟨⟨rfl, rfl, hfits⟩, mem_cons_covers hfits⟩
    | wrapped hwrap => exact absurd hend hwrap
  · intro reader hstart hend
    have houtcome := getRawUInt32_outcome hsize hstart
    unfold getRawString
    revert houtcome
    generalize getRawUInt32 packet reader = outcome
    intro houtcome
    cases houtcome with
    | short hfine _ => exact absurd hfine hend
    | read hfine _ => exact absurd hfine hend
    | wrapped _ word offset =>
        refine ⟨(reader.offset, 4), ?_, not_covers_of_lt (by decide) (by omega)⟩
        simp only
        split
        · exact List.mem_cons_self
        · exact List.mem_cons_of_mem _ List.mem_cons_self

include hsize in
theorem confined_flags32 :
    Confined packet (Kind.flags32.deserialize packet) (Kind.flags32.Honest packet)
      (Kind.flags32.skip packet) where
  keeps ctx := getRawUInt32_keeps packet ctx.reader
  arrives := by
    rintro ⟨reader, mOk⟩ ⟨start, live⟩ ⟨hoffset, hmOk, hstart⟩ hhonest
    cases hoffset
    cases hmOk
    have houtcome := getRawUInt32_outcome hsize hstart
    unfold Kind.deserialize Kind.skip
    revert houtcome
    generalize getRawUInt32 packet reader = outcome
    intro houtcome
    cases houtcome with
    | short _ hshort =>
        rw [if_neg hshort]
        exact ⟨rfl, rfl, hstart⟩
    | read _ hfits =>
        rw [if_pos hfits]
        exact ⟨rfl, rfl, hfits⟩
    | wrapped hwrap => exact absurd hhonest hwrap
  inside := by
    rintro ⟨reader, mOk⟩ ⟨start, live⟩ ⟨hoffset, hmOk, hstart⟩ hhonest
    cases hoffset
    have houtcome := getRawUInt32_outcome hsize hstart
    unfold Kind.deserialize
    revert houtcome
    generalize getRawUInt32 packet reader = outcome
    intro houtcome
    cases houtcome with
    | short => exact fun _ hread => Or.inl hread
    | read _ hfits => exact mem_cons_covers hfits
    | wrapped hwrap => exact absurd hhonest hwrap
  outside := by
    rintro ⟨reader, mOk⟩ ⟨start, live⟩ ⟨hoffset, hmOk, hstart⟩ hnot
    cases hoffset
    have houtcome := getRawUInt32_outcome hsize hstart
    unfold Kind.deserialize
    revert houtcome
    generalize getRawUInt32 packet reader = outcome
    intro houtcome
    cases houtcome with
    | short hend => exact absurd hend hnot
    | read hend => exact absurd hend hnot
    | wrapped hwrap =>
        have hover : packet.size < reader.offset + 4 :=
          Nat.lt_of_lt_of_le hsize (Nat.le_of_not_lt hwrap)
        exact ⟨(reader.offset, 4), List.mem_cons_self, not_covers_of_lt (by decide) hover⟩

theorem deserializeMemBlock_keeps (initialSize : Nat) (reader : Reader) :
    reader.reads ⊆ (deserializeMemBlock initialSize packet reader).2.reads := by
  have hkeeps := getRawUInt32_keeps packet reader
  have htake : ∀ (after : Reader) (count : Nat), reader.reads ⊆ after.reads →
      reader.reads ⊆ (after.take packet count).2.reads :=
    fun _ _ hafter => List.Subset.trans hafter (List.subset_cons_self _ _)
  unfold deserializeMemBlock
  revert hkeeps
  generalize getRawUInt32 packet reader = outcome
  rcases outcome with ⟨word | word, after⟩
  · intro hkeeps
    simp only
    split
    · exact hkeeps
    · split
      · exact hkeeps
      · exact htake _ _ hkeeps
  · intro hkeeps
    simp only
    split
    · exact hkeeps
    · split
      · exact hkeeps
      · exact htake _ _ hkeeps

/-- A block whose length word cannot be read is copied by the size it had before, and refused. -/
theorem deserializeMemBlock_none (initialSize : Nat) {reader after : Reader}
    (hword : getRawUInt32 packet reader = (none, after)) :
    (deserializeMemBlock initialSize packet reader).1 = none ∧
      (deserializeMemBlock initialSize packet reader).2 =
        if initialSize ≠ 0 ∧ initialSize ≤ maxSerializedChunkSize then
          { (after.take packet initialSize).2 with offset := reader.offset }
        else { after with offset := reader.offset } := by
  rw [deserializeMemBlock, hword]
  simp only [Option.getD_none]
  by_cases hzero : initialSize = 0
  · rw [if_pos hzero, if_neg fun h => h.1 hzero]
    exact ⟨rfl, rfl⟩
  · rw [if_neg hzero]
    by_cases hmax : initialSize ≤ maxSerializedChunkSize
    · rw [dif_neg (Nat.not_lt.mpr hmax), if_pos ⟨hzero, hmax⟩]
      exact ⟨rfl, rfl⟩
    · rw [dif_pos (Nat.lt_of_not_le hmax), if_neg fun h => hmax h.2]
      exact ⟨rfl, rfl⟩

theorem deserializeMemBlock_zero (initialSize : Nat) {reader after : Reader}
    (hword : getRawUInt32 packet reader = (some 0, after)) :
    (deserializeMemBlock initialSize packet reader).1.isSome = true ∧
      (deserializeMemBlock initialSize packet reader).2 = after := by
  rw [deserializeMemBlock, hword]
  exact ⟨rfl, rfl⟩

theorem deserializeMemBlock_copied (initialSize : Nat) {reader after : Reader} {len : Nat}
    (hword : getRawUInt32 packet reader = (some len, after)) (hzero : len ≠ 0)
    (hmax : len ≤ maxSerializedChunkSize) :
    (deserializeMemBlock initialSize packet reader).1.isSome = true ∧
      (deserializeMemBlock initialSize packet reader).2 = (after.take packet len).2 := by
  rw [deserializeMemBlock, hword]
  simp only [Option.getD_some]
  rw [if_neg hzero, dif_neg (Nat.not_lt.mpr hmax)]
  exact ⟨rfl, rfl⟩

theorem deserializeMemBlock_oversized (initialSize : Nat) {reader after : Reader} {len : Nat}
    (hword : getRawUInt32 packet reader = (some len, after))
    (hmax : ¬ len ≤ maxSerializedChunkSize) :
    (deserializeMemBlock initialSize packet reader).1.isSome = false ∧
      (deserializeMemBlock initialSize packet reader).2 = { after with offset := reader.offset } := by
  have hzero : len ≠ 0 := fun hzero => hmax (hzero ▸ Nat.zero_le _)
  rw [deserializeMemBlock, hword]
  simp only [Option.getD_some]
  rw [if_neg hzero, dif_pos (Nat.lt_of_not_le hmax)]
  exact ⟨rfl, rfl⟩

include hsize in
theorem deserializeMemBlock_inside (initialSize : Nat) {reader : Reader}
    (hstart : reader.offset ≤ packet.size) (hfits : packet.BlockFits initialSize reader.offset) :
    At packet (packet.afterMemBlock initialSize reader.offset)
        ⟨(deserializeMemBlock initialSize packet reader).2,
          (deserializeMemBlock initialSize packet reader).1.isSome⟩ ∧
      ∀ read ∈ (deserializeMemBlock initialSize packet reader).2.reads,
        read ∈ reader.reads ∨ packet.Covers read := by
  obtain ⟨offset, reads⟩ := reader
  obtain ⟨hend, hclaimed⟩ := hfits
  have houtcome := getRawUInt32_outcome hsize hstart
  generalize hword : getRawUInt32 packet ⟨offset, reads⟩ = outcome at houtcome
  unfold Packet.afterMemBlock
  cases houtcome with
  | short _ hshort =>
      obtain ⟨hnone, hafter⟩ := deserializeMemBlock_none initialSize hword
      have hclaim : packet.claimed initialSize offset = initialSize := if_neg hshort
      have hnext : ¬ (offset + 4 ≤ packet.size ∧
          packet.claimed initialSize offset ≤ maxSerializedChunkSize) := fun h => hshort h.1
      rw [hclaim, if_neg hshort] at hclaimed
      rw [hnone, hafter, if_neg hnext]
      split
      · next hcopied =>
          have hinside : offset + initialSize ≤ packet.size :=
            (hclaimed hcopied.2).resolve_left hcopied.1
          exact ⟨⟨rfl, rfl, hstart⟩, mem_cons_covers hinside⟩
      · exact ⟨⟨rfl, rfl, hstart⟩, fun _ hread => Or.inl hread⟩
  | read _ hfits =>
      change offset + 4 ≤ packet.size at hfits
      have hclaim : packet.claimed initialSize offset = packet.word offset := if_pos hfits
      rw [hclaim, if_pos hfits] at hclaimed
      rw [hclaim]
      by_cases hmax : packet.word offset ≤ maxSerializedChunkSize
      · rw [if_pos ⟨hfits, hmax⟩]
        by_cases hzero : packet.word offset = 0
        · rw [hzero] at hword ⊢
          obtain ⟨hsome, hafter⟩ := deserializeMemBlock_zero initialSize hword
          rw [hsome, hafter]
          exact ⟨⟨rfl, rfl, hfits⟩, mem_cons_covers hfits⟩
        · obtain ⟨hsome, hafter⟩ := deserializeMemBlock_copied initialSize hword hzero hmax
          have hinside : offset + 4 + packet.word offset ≤ packet.size :=
            (hclaimed hmax).resolve_left hzero
          have hadd : Word.add 32 (offset + 4) (packet.word offset) =
              offset + 4 + packet.word offset := Word.add_of_lt (by omega)
          rw [hsome, hafter, Reader.take, hadd]
          refine ⟨⟨rfl, rfl, hinside⟩, ?_⟩
          intro read hread
          cases mem_cons_covers hinside read hread with
          | inl hword => exact mem_cons_covers hfits read hword
          | inr hcovers => exact Or.inr hcovers
      · obtain ⟨hsome, hafter⟩ := deserializeMemBlock_oversized initialSize hword hmax
        rw [if_neg fun h => hmax h.2, hsome, hafter]
        exact ⟨⟨rfl, rfl, hstart⟩, mem_cons_covers hfits⟩
  | wrapped hwrap => exact absurd hend hwrap

/-- A block that does not fit is copied all the same. -/
theorem copies_outside {initialSize offset claimed start : Nat}
    (hclaim : packet.claimed initialSize offset = claimed)
    (hstart : (if offset + 4 ≤ packet.size then offset + 4 else offset) = start)
    (hend : offset + 4 < 2 ^ 32) (hnot : ¬ packet.BlockFits initialSize offset) :
    claimed ≤ maxSerializedChunkSize ∧ claimed ≠ 0 ∧ packet.size < start + claimed := by
  unfold Packet.BlockFits at hnot
  rw [hclaim, hstart] at hnot
  by_contra hfits
  refine hnot ⟨hend, fun hmax => ?_⟩
  by_contra hneither
  rw [not_or] at hneither
  exact hfits ⟨hmax, hneither.1, Nat.lt_of_not_le hneither.2⟩

include hsize in
theorem deserializeMemBlock_outside (initialSize : Nat) {reader : Reader}
    (hstart : reader.offset ≤ packet.size) (hnot : ¬ packet.BlockFits initialSize reader.offset) :
    ∃ read ∈ (deserializeMemBlock initialSize packet reader).2.reads, ¬ packet.Covers read := by
  obtain ⟨offset, reads⟩ := reader
  have houtcome := getRawUInt32_outcome hsize hstart
  generalize hword : getRawUInt32 packet ⟨offset, reads⟩ = outcome at houtcome
  cases houtcome with
  | short hend hshort =>
      obtain ⟨_, hafter⟩ := deserializeMemBlock_none initialSize hword
      obtain ⟨hmax, hzero, hover⟩ := copies_outside (if_neg hshort) (if_neg hshort) hend hnot
      refine ⟨(offset, initialSize), ?_, not_covers_of_lt (Nat.pos_of_ne_zero hzero) hover⟩
      rw [hafter, if_pos ⟨hzero, hmax⟩]
      exact List.mem_cons_self
  | read hend hfits =>
      change offset + 4 ≤ packet.size at hfits
      obtain ⟨hmax, hzero, hover⟩ := copies_outside (if_pos hfits) (if_pos hfits) hend hnot
      obtain ⟨_, hafter⟩ := deserializeMemBlock_copied initialSize hword hzero hmax
      refine ⟨(offset + 4, packet.word offset), ?_,
        not_covers_of_lt (Nat.pos_of_ne_zero hzero) hover⟩
      rw [hafter]
      exact List.mem_cons_self
  | wrapped hwrap word after =>
      have hover : packet.size < offset + 4 :=
        Nat.lt_of_lt_of_le hsize (Nat.le_of_not_lt hwrap)
      refine ⟨(offset, 4), ?_, not_covers_of_lt (by decide) hover⟩
      by_cases hmax : word ≤ maxSerializedChunkSize
      · by_cases hzero : word = 0
        · rw [hzero] at hword
          rw [(deserializeMemBlock_zero initialSize hword).2]
          exact List.mem_cons_self
        · rw [(deserializeMemBlock_copied initialSize hword hzero hmax).2]
          exact List.mem_cons_of_mem _ List.mem_cons_self
      · rw [(deserializeMemBlock_oversized initialSize hword hmax).2]
        exact List.mem_cons_self

include hsize in
theorem confined_memBlock (initialSize : Nat) :
    Confined packet ((Kind.memBlock initialSize).deserialize packet)
      ((Kind.memBlock initialSize).Honest packet) ((Kind.memBlock initialSize).skip packet) :=
  Confined.process (packet.BlockFits initialSize) (packet.afterMemBlock initialSize)
    (deserializeMemBlock_keeps initialSize)
    (fun _ hstart hfits => deserializeMemBlock_inside hsize initialSize hstart hfits)
    (fun _ hstart hnot => deserializeMemBlock_outside hsize initialSize hstart hnot) _

include hsize in
theorem confined_readUInt (width : Width) :
    Confined packet (ReadContext.readUInt width packet) (Position.Below width.bytes)
      (Position.skip packet width.bytes) :=
  Confined.fixed hsize ((readsFixed_getRawUInt width.bytes).option_map (BitVec.ofNat _))
    (by cases width <;> decide) 0

include hsize in
theorem readCount_eq {ctx : ReadContext} {here : Position} (hat : At packet here ctx)
    (hbelow : here.Below 4) : (ctx.readCount packet).1.toNat = here.count packet := by
  obtain ⟨reader, mOk⟩ := ctx
  obtain ⟨start, live⟩ := here
  obtain ⟨hoffset, hmOk, hstart⟩ := hat
  cases hoffset
  cases hmOk
  cases mOk with
  | false => rfl
  | true =>
      have houtcome := getRawUInt32_outcome hsize hstart
      have hword : (ReadContext.readCount packet ⟨reader, true⟩).1 =
          ((getRawUInt32 packet reader).1.map (BitVec.ofNat 32)).getD 0 := rfl
      unfold Position.count
      rw [hword]
      revert houtcome
      generalize getRawUInt32 packet reader = outcome
      intro houtcome
      cases houtcome with
      | short _ hshort =>
          rw [if_neg fun h => hshort h.2]
          rfl
      | read _ hfits =>
          rw [if_pos ⟨rfl, hfits⟩]
          change (BitVec.ofNat 32 (packet.word reader.offset)).toNat = packet.word reader.offset
          rw [BitVec.toNat_ofNat, Nat.mod_eq_of_lt (word_lt _)]
      | wrapped hwrap => exact absurd (hbelow rfl) hwrap

include hsize in
/-- A container, whose loop runs as often as its count says. -/
theorem Confined.counted {α : Type} {body : ReadContext → α × ReadContext}
    {honest : Position → Prop} {skip : Position → Position}
    (hbody : Confined packet body honest skip) :
    Confined packet
      (fun ctx => readMany body (ctx.readCount packet).1.toNat (ctx.readCount packet).2)
      (fun here => here.Below 4 ∧ HonestMany honest skip (here.count packet) (here.skip packet 4))
      (fun here => skipMany skip (here.count packet) (here.skip packet 4)) := by
  have hcount := confined_readUInt hsize .word32
  refine ⟨?_, ?_, ?_, ?_⟩
  · intro ctx
    exact List.Subset.trans (hcount.keeps ctx) ((hbody.many _).keeps _)
  · intro ctx here hat hhonest
    rw [readCount_eq hsize hat hhonest.1]
    exact (hbody.many _).arrives (hcount.arrives hat hhonest.1) hhonest.2
  · intro ctx here hat hhonest read hread
    beta_reduce at hread
    rw [readCount_eq hsize hat hhonest.1] at hread
    cases (hbody.many _).inside (hcount.arrives hat hhonest.1) hhonest.2 read hread with
    | inl hearlier => exact hcount.inside hat hhonest.1 read hearlier
    | inr hcovers => exact Or.inr hcovers
  · intro ctx here hat hnot
    by_cases hbelow : here.Below 4
    · rw [readCount_eq hsize hat hbelow]
      exact (hbody.many _).outside (hcount.arrives hat hbelow) fun hmany => hnot ⟨hbelow, hmany⟩
    · obtain ⟨read, hread, hbad⟩ := hcount.outside hat hbelow
      exact ⟨read, (hbody.many _).keeps _ hread, hbad⟩

theorem readsFixed_getId (width : Nat) : ReadsFixed packet width (getId width packet) := by
  intro reader
  split
  · next hshort => exact if_pos hshort
  · next hlong => exact ⟨_, if_neg hlong⟩

include hsize in
/-- Every field kind stays inside the packet exactly as far as it is honest. -/
theorem Kind.confined {α : Type} (kind : Kind α) :
    Confined packet (kind.deserialize packet) (kind.Honest packet) (kind.skip packet) := by
  induction kind with
  | bool =>
      exact Confined.fixed hsize ((readsFixed_getRawUInt 1).option_map (· != 0)) (by decide) false
  | uint width => exact confined_readUInt hsize width
  | time =>
      exact Confined.fixed hsize ((readsFixed_getRawUInt 8).option_map Int64.ofNat) (by decide) 0
  | string => exact confined_string hsize
  | id width hwidth => exact Confined.fixed hsize (readsFixed_getId width) hwidth _
  | flags32 => exact confined_flags32 hsize
  | enum width => exact confined_readUInt hsize width
  | memBlock initialSize => exact confined_memBlock hsize initialSize
  | vector kind ih => exact ⟨(ih.counted hsize).keeps, (ih.counted hsize).arrives,
      (ih.counted hsize).inside, (ih.counted hsize).outside⟩
  | list kind ih => exact ih.counted hsize
  | @set α order kind ih =>
      exact (ih.counted hsize).map fun values =>
        values.foldl (fun (set : Finset α) value => insert value set) ∅
  | map key value ihKey ihValue =>
      exact ((ihKey.pair ihValue).counted hsize).map fun entries =>
        entries.foldl (fun (map : OrderedMap _ _) entry => map.insert entry.1 entry.2) ∅
  | pair first second ihFirst ihSecond => exact ihFirst.pair ihSecond

include hsize in
theorem Members.keeps {α : Type} (members : Members α) :
    ∀ ctx : ReadContext, ctx.reader.reads ⊆ (members.deserialize packet ctx).2.reader.reads := by
  induction members with
  | nil => exact fun _ => List.Subset.refl _
  | cons kind rest ih =>
      exact fun ctx => List.Subset.trans ((kind.confined hsize).keeps ctx) (ih _)

include hsize in
theorem Members.confined {α : Type} (members : Members α) :
    ∀ (ctx : ReadContext) (here : Position), At packet here ctx →
      (∀ read ∈ ctx.reader.reads, packet.Covers read) →
        ((∀ read ∈ (members.deserialize packet ctx).2.reader.reads, packet.Covers read) ↔
          members.Honest packet here) := by
  induction members with
  | nil => exact fun _ _ _ hreads => ⟨fun _ => trivial, fun _ => hreads⟩
  | cons kind rest ih =>
      intro ctx here hat hreads
      have hkind := kind.confined hsize
      by_cases hhonest : kind.Honest packet here
      · have hcovered : ∀ read ∈ (kind.deserialize packet ctx).2.reader.reads,
            packet.Covers read := by
          intro read hread
          cases hkind.inside hat hhonest read hread with
          | inl hearlier => exact hreads read hearlier
          | inr hcovers => exact hcovers
        have hrest := ih _ _ (hkind.arrives hat hhonest) hcovered
        exact ⟨fun hall => ⟨hhonest, hrest.mp hall⟩, fun hboth => hrest.mpr hboth.2⟩
      · obtain ⟨read, hread, hbad⟩ := hkind.outside hat hhonest
        have hkept := rest.keeps hsize _ hread
        exact ⟨fun hall => absurd (hall read hkept) hbad, fun hboth => absurd hboth.1 hhonest⟩

end Jobs

/-- **Bounds.** `deserialise` reads only bytes of the packet if and only if the packet is honest
about the members of the class it names: no field that is looked at crosses `2 ^ 32`, and no binary
block that is copied claims more bytes than are left. -/
theorem deserialise_reads_inside (createItem : Nat → Nat → Option ItemClass)
    (flags : SerializationFlags) (data : Memory) (size : Nat) (hheader : 8 ≤ size)
    (hsize : size < 2 ^ 32) :
    (∀ read ∈ (deserialise createItem flags data size).reads, ∀ i, read.1 ≤ i →
        i < read.1 + read.2 → i < size) ↔
      (flags.skipHeader = false → ∀ cls, createItem (getRsItemService (getRsItemId data).1)
        (getRsItemSubType (getRsItemId data).1) = some cls →
          cls.members.Honest ⟨data, size⟩ ⟨8, true⟩) := by
  have hid : (getRsItemId data).2.reads = [(0, 4)] := rfl
  have hfour : ∀ read ∈ (getRsItemId data).2.reads, (Packet.mk data size).Covers read := by
    intro read hread
    rw [hid, List.mem_singleton] at hread
    rw [hread]
    exact covers_of_le (by change 0 + 4 ≤ size; omega)
  rw [deserialise]
  by_cases hskip : flags.skipHeader = true
  · rw [if_pos hskip, hskip]
    exact ⟨fun _ => nofun, fun _ => nofun⟩
  · rw [if_neg hskip]
    simp only [Bool.eq_false_of_not_eq_true hskip, true_implies]
    cases hcreate : createItem (getRsItemService (getRsItemId data).1)
        (getRsItemSubType (getRsItemId data).1) with
    | none => exact ⟨fun _ _ => nofun, fun _ => hfour⟩
    | some cls =>
        have hmembers := cls.members.confined (show (Packet.mk data size).size < 2 ^ 32 from hsize)
          ⟨⟨8, (getRsItemId data).2.reads⟩, true⟩ ⟨8, true⟩ ⟨rfl, rfl, hheader⟩ hfour
        have hsame : (∀ cls', some cls = some cls' → cls'.members.Honest ⟨data, size⟩ ⟨8, true⟩) ↔
            cls.members.Honest ⟨data, size⟩ ⟨8, true⟩ :=
          ⟨fun h => h cls rfl, fun h cls' heq => Option.some.inj heq ▸ h⟩
        rw [hsame, ← hmembers]
        simp only
        split
        · exact Iff.rfl
        · split
          · exact Iff.rfl
          · exact Iff.rfl

/-- A packet of two strings, which lie as they are said to. -/
theorem deserialise_reads_inside_two_strings :
    17 < 2 ^ 32 ∧ ∀ read ∈ (deserialise (fun _ _ => some ⟨_, .cons .string (.cons .string .nil)⟩) ⟨false⟩
        (fun i => [2, 0, 0, 0, 0, 0, 0, 17, 0, 0, 0, 1, 65, 0, 0, 0, 9].getD i 0) 17).reads,
      ∀ i, read.1 ≤ i → i < read.1 + read.2 → i < 17 := by
  refine ⟨by decide, (deserialise_reads_inside _ _ _ _ (by decide) (by decide)).mpr ?_⟩
  rintro - cls ⟨⟩
  refine ⟨fun _ => ?_, fun _ => ?_, trivial⟩ <;> decide

/-- A binary block of one byte, in a packet that ends behind its length word. -/
theorem deserialise_reads_outside :
    ¬ ∀ (createItem : Nat → Nat → Option ItemClass) (flags : SerializationFlags) (data : Memory)
      (size : Nat), 8 ≤ size → size < 2 ^ 32 →
        ∀ read ∈ (deserialise createItem flags data size).reads,
          ∀ i, read.1 ≤ i → i < read.1 + read.2 → i < size := by
  intro hinside
  have hread := hinside (fun _ _ => some ⟨_, .cons (.memBlock 0) .nil⟩) ⟨false⟩
    (fun i => [2, 0, 0, 0, 0, 0, 0, 12, 0, 0, 0, 1].getD i 0) 12 (by decide) (by decide)
    (12, 1) (by decide) 12 (by decide) (by decide)
  exact absurd hread (by decide)

end RetroShare.Serialiser
