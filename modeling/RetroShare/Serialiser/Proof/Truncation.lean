import RetroShare.Serialiser.Proof.RoundTrip
import RetroShare.Serialiser.Proof.Bounds

/-!
# Truncated packets

An item is read back field by field from a packet that ends early. A `t_RsFlags32` that does not fit
takes no bytes and reports nothing; any other field that does not fit spoils the item. `stops` follows
the fields of an item under this rule, and the reader agrees with it.
-/

namespace RetroShare.Serialiser

open Bytes

/-- A field that is read at one go; a tolerant one may be missing. -/
structure Leaf where
  width : Nat
  tolerant : Bool

def Kind.leaves {α : Type} : Kind α → α → List Leaf
  | bool, _ => [⟨1, false⟩]
  | uint width, _ => [⟨width.bytes, false⟩]
  | time, _ => [⟨8, false⟩]
  | string, str => [⟨4 + str.length, false⟩]
  | id width _, _ => [⟨width, false⟩]
  | flags32, _ => [⟨4, true⟩]
  | enum width, _ => [⟨width.bytes, false⟩]
  | memBlock _, block => [⟨4 + block.1.length, false⟩]
  | vector kind, values => ⟨4, false⟩ :: values.1.flatMap kind.leaves
  | list kind, values => ⟨4, false⟩ :: values.flatMap kind.leaves
  | set kind, values => ⟨4, false⟩ :: (values.sort (· ≤ ·)).flatMap kind.leaves
  | map key value, entries =>
      ⟨4, false⟩ :: entries.toList.flatMap fun entry => key.leaves entry.1 ++ value.leaves entry.2
  | pair first second, values => first.leaves values.1 ++ second.leaves values.2

def Members.leaves {α : Type} : Members α → α → List Leaf
  | nil, _ => []
  | cons kind rest, fields => kind.leaves fields.1 ++ rest.leaves fields.2

/-- Where reading these fields from `start` stops in a packet of `size` bytes, unless it fails. -/
def stops (size : Nat) : List Leaf → Nat → Option Nat
  | [], start => some start
  | leaf :: rest, start =>
      if start + leaf.width ≤ size then stops size rest (start + leaf.width)
      else if leaf.tolerant then stops size rest start
      else none

theorem stops_append (size : Nat) (first second : List Leaf) (start : Nat) :
    stops size (first ++ second) start = (stops size first start).bind (stops size second) := by
  induction first generalizing start with
  | nil => rfl
  | cons leaf first ih =>
      rw [List.cons_append, stops, stops]
      split
      · exact ih _
      · split
        · exact ih _
        · rfl

/-- The packet holds as many of these bytes as fit, or there is no room for a 32-bit word. -/
def Ready (packet : Packet) (start : Nat) (bytes : List UInt8) : Prop :=
  packet.size < start + 4 ∨ Holds packet.data start (bytes.take (packet.size - start))

theorem holds_take_append {mem : Memory} {start count : Nat} {first second : List UInt8}
    (hholds : Holds mem start ((first ++ second).take count)) :
    Holds mem start (first.take count) ∧
      Holds mem (start + (first.take count).length) (second.take (count - first.length)) := by
  rw [List.take_append, holds_append_iff] at hholds
  exact hholds

theorem Ready.left {packet : Packet} {start : Nat} {first second : List UInt8}
    (hready : Ready packet start (first ++ second)) : Ready packet start first :=
  hready.imp id fun hholds => (holds_take_append hholds).1

theorem Ready.right {packet : Packet} {start : Nat} {first second : List UInt8}
    (hready : Ready packet start (first ++ second)) (hfits : start + first.length ≤ packet.size) :
    Ready packet (start + first.length) second := by
  cases hready with
  | inl hshort => exact Or.inl (by omega)
  | inr hholds =>
      right
      have hright := (holds_take_append hholds).2
      rw [List.take_of_length_le (by omega), Nat.sub_sub] at hright
      exact hright

theorem Ready.next {packet : Packet} {start stop : Nat} {first second : List UInt8}
    (hready : Ready packet start (first ++ second)) (hinside : stop ≤ packet.size)
    (hstop : stop = start + first.length ∨ packet.size < stop + 4) : Ready packet stop second := by
  cases hstop with
  | inl hend =>
      rw [hend] at hinside ⊢
      exact hready.right hinside
  | inr hshort => exact Or.inl hshort

theorem Ready.holds {packet : Packet} {start : Nat} {bytes : List UInt8}
    (hready : Ready packet start bytes) (hword : start + 4 ≤ packet.size)
    (hfits : start + bytes.length ≤ packet.size) : Holds packet.data start bytes := by
  cases hready with
  | inl hshort => exact absurd hword (by omega)
  | inr hholds =>
      rw [List.take_of_length_le (by omega)] at hholds
      exact hholds

/-- Reading has failed, or run past the end with `rest` bytes of the item still to come. -/
def Doomed (packet : Packet) (rest : Nat) (ctx : ReadContext) : Prop :=
  ctx.mOk = false ∨ packet.size < ctx.reader.offset ∧ ctx.reader.offset + rest < 2 ^ 32

/-- The job reads these bytes from a packet that may end within them as `stops` says, and it cannot
recover once the item is spoiled. -/
structure Cut {α : Type} (packet : Packet) (job : ReadContext → α × ReadContext)
    (bytes : List UInt8) (leaves : List Leaf) : Prop where
  stops_some : ∀ (reader : Reader) {stop : Nat}, reader.offset ≤ packet.size →
    reader.offset + bytes.length < 2 ^ 32 → Ready packet reader.offset bytes →
      stops packet.size leaves reader.offset = some stop →
        (∃ value reads, job ⟨reader, true⟩ = (value, ⟨⟨stop, reads⟩, true⟩)) ∧
          stop ≤ packet.size ∧ stop ≤ reader.offset + bytes.length ∧
          (stop = reader.offset + bytes.length ∨ packet.size < stop + 4)
  stops_none : ∀ (reader : Reader) (rest : Nat), reader.offset ≤ packet.size →
    reader.offset + bytes.length + rest < 2 ^ 32 → Ready packet reader.offset bytes →
      stops packet.size leaves reader.offset = none → Doomed packet rest (job ⟨reader, true⟩).2
  doomed : ∀ (rest : Nat) (ctx : ReadContext), Doomed packet (bytes.length + rest) ctx →
    Doomed packet rest (job ctx).2

section Jobs

variable {packet : Packet}

theorem Cut.map {α β : Type} {job : ReadContext → α × ReadContext} {bytes : List UInt8}
    {leaves : List Leaf} (f : α → β) (hjob : Cut packet job bytes leaves) :
    Cut packet (fun ctx => (f (job ctx).1, (job ctx).2)) bytes leaves where
  stops_some := by
    intro reader stop hstart hbound hready hstop
    obtain ⟨⟨value, reads, hread⟩, hrest⟩ := hjob.stops_some _ hstart hbound hready hstop
    exact ⟨⟨f value, reads, by rw [hread]⟩, hrest⟩
  stops_none := hjob.stops_none
  doomed := hjob.doomed

theorem Cut.skip (packet : Packet) : Cut packet (fun ctx => ((), ctx)) [] [] where
  stops_some := by
    intro reader stop hstart _ _ hstop
    cases hstop
    exact ⟨⟨(), reader.reads, rfl⟩, hstart, Nat.le_refl _, Or.inl rfl⟩
  stops_none := fun _ _ _ _ => nofun
  doomed := by
    intro rest ctx hdoomed
    rwa [List.length_nil, Nat.zero_add] at hdoomed

theorem Cut.pair {α β : Type} {first : ReadContext → α × ReadContext}
    {second : ReadContext → β × ReadContext} {left right : List UInt8} {leaves leaves' : List Leaf}
    (hfirst : Cut packet first left leaves) (hsecond : Cut packet second right leaves') :
    Cut packet
      (fun ctx => (((first ctx).1, (second (first ctx).2).1), (second (first ctx).2).2))
      (left ++ right) (leaves ++ leaves') where
  stops_some := by
    intro reader stop hstart hbound hready hstop
    rw [List.length_append] at hbound ⊢
    rw [stops_append, Option.bind_eq_some_iff] at hstop
    obtain ⟨middle, hmiddle, hstop⟩ := hstop
    obtain ⟨⟨a, reads, hleft⟩, hinside, hwithin, hwhere⟩ :=
      hfirst.stops_some _ hstart (by omega) hready.left hmiddle
    have hready' : Ready packet middle right := hready.next hinside hwhere
    have hbound' : middle + right.length < 2 ^ 32 := by omega
    obtain ⟨⟨b, reads', hright⟩, hinside', hwithin', hwhere'⟩ :=
      hsecond.stops_some ⟨middle, reads⟩ hinside hbound' hready' hstop
    change stop ≤ middle + right.length at hwithin'
    change stop = middle + right.length ∨ _ at hwhere'
    refine ⟨⟨(a, b), reads', by rw [hleft, hright]⟩, hinside', by omega, ?_⟩
    omega
  stops_none := by
    intro reader rest hstart hbound hready hstop
    rw [List.length_append] at hbound
    rw [stops_append] at hstop
    cases hmiddle : stops packet.size leaves reader.offset with
    | none =>
        have hdoomed := hfirst.stops_none _ (right.length + rest) hstart (by omega) hready.left hmiddle
        exact hsecond.doomed rest _ hdoomed
    | some middle =>
        obtain ⟨⟨a, reads, hleft⟩, hinside, hwithin, hwhere⟩ :=
          hfirst.stops_some _ hstart (by omega) hready.left hmiddle
        have hready' : Ready packet middle right := hready.next hinside hwhere
        have hbound' : middle + right.length + rest < 2 ^ 32 := by omega
        rw [hmiddle, Option.bind_some] at hstop
        have hdoomed :=
          hsecond.stops_none ⟨middle, reads⟩ rest hinside hbound' hready' hstop
        rw [hleft]
        exact hdoomed
  doomed := by
    intro rest ctx hdoomed
    rw [List.length_append, Nat.add_assoc] at hdoomed
    exact hsecond.doomed rest _ (hfirst.doomed _ ctx hdoomed)

theorem Cut.many {α : Type} {body : ReadContext → α × ReadContext} {encode : α → List UInt8}
    {leaves : α → List Leaf} (hbody : ∀ value, Cut packet body (encode value) (leaves value))
    (values : List α) :
    Cut packet (readMany body values.length) (values.flatMap encode) (values.flatMap leaves) := by
  induction values with
  | nil => exact (Cut.skip packet).map fun _ => []
  | cons value values ih => exact ((hbody value).pair ih).map fun read => read.1 :: read.2

variable (hsize : packet.size < 2 ^ 32)

/-- A guarded reader that fails behind the end of the packet does not recover. -/
theorem process_doomed {α : Type} {raw : Reader → Option α × Reader} {initial : α} {width : Nat}
    (hraw : ∀ reader : Reader, packet.size < reader.offset → reader.offset + width < 2 ^ 32 →
      (raw reader).1 = none) (rest : Nat) (ctx : ReadContext)
    (hdoomed : Doomed packet (width + rest) ctx) :
    Doomed packet rest (ctx.process raw initial).2 := by
  obtain ⟨reader, mOk⟩ := ctx
  cases mOk with
  | false => exact Or.inl rfl
  | true =>
      obtain ⟨hbehind, hbound⟩ := hdoomed.resolve_left nofun
      have hnone := hraw reader hbehind (by change reader.offset + _ < _ at hbound; omega)
      left
      rw [ReadContext.process, if_pos rfl]
      change (raw reader).1.isSome = false
      rw [hnone, Option.isSome_none]

theorem getRawUInt_behind {width : Nat} {reader : Reader}
    (hbehind : packet.size < reader.offset + width) (hbound : reader.offset + width < 2 ^ 32) :
    getRawUInt width packet reader = (none, reader) := by
  have hadd : Word.add 32 reader.offset width = reader.offset + width := Word.add_of_lt hbound
  rw [getRawUInt, hadd, if_pos hbehind]

theorem Cut.fixed {α : Type} {width : Nat} {raw : Reader → Option α × Reader}
    (hraw : ReadsFixed packet width raw) (initial : α) {bytes : List UInt8}
    (hlength : bytes.length = width) :
    Cut packet (fun ctx => ctx.process raw initial) bytes [⟨width, false⟩] where
  stops_some := by
    intro reader stop hstart hbound _ hstop
    rw [hlength] at hbound ⊢
    have hadd : Word.add 32 reader.offset width = reader.offset + width := Word.add_of_lt hbound
    by_cases hfits : reader.offset + width ≤ packet.size
    · have hreader := hraw reader
      rw [hadd, if_neg (Nat.not_lt.mpr hfits)] at hreader
      obtain ⟨value, hvalue⟩ := hreader
      rw [stops, if_pos hfits, stops] at hstop
      cases hstop
      refine ⟨⟨value, (reader.offset, width) :: reader.reads, ?_⟩, hfits, Nat.le_refl _, Or.inl rfl⟩
      rw [ReadContext.process, if_pos rfl, hvalue, Reader.take, hadd]
      rfl
    · rw [stops, if_neg hfits] at hstop
      cases hstop
  stops_none := by
    intro reader rest hstart hbound _ hstop
    rw [hlength] at hbound
    have hadd : Word.add 32 reader.offset width = reader.offset + width :=
      Word.add_of_lt (by omega)
    by_cases hfits : reader.offset + width ≤ packet.size
    · rw [stops, if_pos hfits] at hstop
      cases hstop
    · have hreader := hraw reader
      rw [hadd, if_pos (Nat.lt_of_not_le hfits)] at hreader
      left
      rw [ReadContext.process, if_pos rfl, hreader]
      rfl
  doomed := by
    rw [hlength]
    refine process_doomed ?_
    intro reader hbehind hbound
    have hadd : Word.add 32 reader.offset width = reader.offset + width := Word.add_of_lt hbound
    have hreader := hraw reader
    rw [hadd, if_pos (by omega)] at hreader
    rw [hreader]

/-- A string or a block: intact, or spoiled. -/
theorem Cut.counted_bytes {α : Type} {raw : Reader → Option α × Reader} {initial value : α}
    {content : List UInt8}
    (hread : Reads packet (fun ctx => ctx.process raw initial)
      (bigEndian 4 content.length ++ content) value)
    (hshort : ∀ reader : Reader, packet.size < reader.offset + 4 →
      reader.offset + 4 < 2 ^ 32 → (raw reader).1 = none)
    (hcut : ∀ (reader : Reader) (rest : Nat), reader.offset + 4 ≤ packet.size →
      Holds packet.data reader.offset (bigEndian 4 content.length) →
        packet.size < reader.offset + 4 + content.length →
          reader.offset + 4 + content.length + rest < 2 ^ 32 →
            Doomed packet rest ((⟨reader, true⟩ : ReadContext).process raw initial).2) :
    Cut packet (fun ctx => ctx.process raw initial) (bigEndian 4 content.length ++ content)
      [⟨4 + content.length, false⟩] where
  stops_some := by
    intro reader stop hstart hbound hready hstop
    by_cases hfits : reader.offset + (4 + content.length) ≤ packet.size
    · have hholds := hready.holds (by omega)
        (by rw [List.length_append, length_bigEndian]; exact hfits)
      rw [stops, if_pos hfits, stops] at hstop
      cases hstop
      obtain ⟨reads, hread⟩ := hread reader hholds
        (by rw [List.length_append, length_bigEndian]; exact hfits)
      rw [List.length_append, length_bigEndian] at hread ⊢
      exact ⟨⟨value, reads, hread⟩, hfits, Nat.le_refl _, Or.inl rfl⟩
    · rw [stops, if_neg hfits] at hstop
      cases hstop
  stops_none := by
    intro reader rest hstart hbound hready hstop
    rw [List.length_append, length_bigEndian] at hbound
    by_cases hfits : reader.offset + (4 + content.length) ≤ packet.size
    · rw [stops, if_pos hfits] at hstop
      cases hstop
    · by_cases hword : reader.offset + 4 ≤ packet.size
      · have hbytes : (bigEndian 4 content.length).length = 4 := length_bigEndian _ _
        have hholds := hready.left.holds hword (by rw [hbytes]; exact hword)
        exact hcut reader rest hword hholds (by omega) (by omega)
      · have hnone := hshort reader (by omega) (by omega)
        left
        rw [ReadContext.process, if_pos rfl]
        change (raw reader).1.isSome = false
        rw [hnone, Option.isSome_none]
  doomed := by
    rw [List.length_append, length_bigEndian]
    refine process_doomed ?_
    intro reader hbehind hbound
    exact hshort reader (by omega) (by omega)

include hsize in
theorem cut_string (str : List UInt8) :
    Cut packet (fun ctx => ctx.process (getRawString packet) []) (bigEndian 4 str.length ++ str)
      [⟨4 + str.length, false⟩] := by
  refine Cut.counted_bytes (reads_getRawString hsize str) ?_ ?_
  · intro reader hbehind hbound
    rw [getRawString, getRawUInt32, getRawUInt_behind hbehind hbound]
  · intro reader rest hword hholds hbehind hbound
    have hread := getRawUInt_of_room hsize reader hholds hword (show str.length < 256 ^ 4 by omega)
    have hguard : packet.size < str.length ∨ packet.size - str.length < reader.offset + 4 := by omega
    left
    rw [ReadContext.process, if_pos rfl, getRawString, getRawUInt32, hread]
    simp only
    rw [if_pos hguard]
    rfl

include hsize in
theorem cut_memBlock (initialSize : Nat) (block : MemBlock) :
    Cut packet (fun ctx => ctx.process (deserializeMemBlock initialSize packet) ⟨[], Nat.zero_le _⟩)
      (bigEndian 4 block.1.length ++ block.1) [⟨4 + block.1.length, false⟩] := by
  refine Cut.counted_bytes (reads_deserializeMemBlock hsize initialSize block) ?_ ?_
  · intro reader hbehind hbound
    exact (deserializeMemBlock_none initialSize (getRawUInt_behind hbehind hbound)).1
  · intro reader rest hword hholds hbehind hbound
    have hread := getRawUInt_of_room hsize reader hholds hword (show block.1.length < 256 ^ 4 by omega)
    have hzero : block.1.length ≠ 0 := by omega
    have hafter := (deserializeMemBlock_copied initialSize hread hzero block.2).2
    have hadd : Word.add 32 (reader.offset + 4) block.1.length =
        reader.offset + 4 + block.1.length := Word.add_of_lt (by omega)
    rw [Reader.take, hadd] at hafter
    -- the whole block is copied, and the offset now lies behind the packet
    right
    rw [ReadContext.process, if_pos rfl]
    change packet.size < (deserializeMemBlock initialSize packet reader).2.offset ∧
      (deserializeMemBlock initialSize packet reader).2.offset + rest < 2 ^ 32
    rw [hafter]
    exact ⟨hbehind, hbound⟩

include hsize in
theorem cut_flags32 (member : BitVec 32) :
    Cut packet (Kind.flags32.deserialize packet) (bigEndian 4 member.toNat) [⟨4, true⟩] where
  stops_some := by
    intro reader stop hstart hbound hready hstop
    rw [length_bigEndian] at hbound ⊢
    by_cases hfits : reader.offset + 4 ≤ packet.size
    · have hholds := hready.holds hfits (by rw [length_bigEndian]; exact hfits)
      rw [stops, if_pos hfits, stops] at hstop
      cases hstop
      obtain ⟨reads, hread⟩ := Kind.flags32.reads_deserialize hsize member reader hholds
        (by rw [Kind.encode, length_bigEndian]; exact hfits)
      rw [Kind.encode, length_bigEndian] at hread
      exact ⟨⟨member, reads, hread⟩, hfits, Nat.le_refl _, Or.inl rfl⟩
    · rw [stops, if_neg hfits, if_pos rfl, stops] at hstop
      cases hstop
      refine ⟨⟨BitVec.ofNat 32 0, reader.reads, ?_⟩, hstart, Nat.le_add_right _ _,
        Or.inr (Nat.lt_of_not_le hfits)⟩
      rw [Kind.deserialize, getRawUInt32, getRawUInt_behind (Nat.lt_of_not_le hfits) hbound]
      rfl
  stops_none := by
    intro reader rest _ _ _ hstop
    rw [stops] at hstop
    split at hstop
    · cases hstop
    · cases hstop
  doomed := by
    intro rest ctx hdoomed
    rw [length_bigEndian] at hdoomed
    cases hdoomed with
    | inl hfailed => exact Or.inl hfailed
    | inr hbehind =>
        right
        rw [Kind.deserialize, getRawUInt32, getRawUInt_behind (by omega) (by omega)]
        exact ⟨hbehind.1, by have := hbehind.2; change ctx.reader.offset + rest < _; omega⟩

theorem cut_readUInt (width : Width) (member : width.Value) :
    Cut packet (ReadContext.readUInt width packet) (bigEndian width.bytes member.toNat)
      [⟨width.bytes, false⟩] :=
  Cut.fixed ((readsFixed_getRawUInt width.bytes).option_map (BitVec.ofNat _)) 0
    (length_bigEndian _ _)

/-- A spoiled count is zero. -/
theorem readCount_spoiled (ctx : ReadContext)
    (hspoiled : ctx.mOk = false ∨ packet.size < ctx.reader.offset + 4 ∧
      ctx.reader.offset + 4 < 2 ^ 32) :
    (ctx.readCount packet).1.toNat = 0 ∧ (ctx.readCount packet).2.mOk = false := by
  obtain ⟨reader, mOk⟩ := ctx
  cases mOk with
  | false => exact ⟨rfl, rfl⟩
  | true =>
      obtain ⟨hbehind, hbound⟩ := hspoiled.resolve_left nofun
      rw [ReadContext.readCount, ReadContext.readUInt, ReadContext.process, if_pos rfl]
      change (((getRawUInt 4 packet reader).1.map (BitVec.ofNat 32)).getD 0).toNat = 0 ∧
        ((getRawUInt 4 packet reader).1.map (BitVec.ofNat 32)).isSome = false
      rw [getRawUInt_behind hbehind hbound]
      exact ⟨rfl, rfl⟩

include hsize in
theorem Cut.counted {α : Type} {body : ReadContext → α × ReadContext} {encode : α → List UInt8}
    (leaves : α → List Leaf) (hpos : ∀ value, 0 < (encode value).length)
    (hbody : ∀ value, Cut packet body (encode value) (leaves value)) (values : List α) :
    Cut packet (fun ctx =>
        readMany body (ctx.readCount packet).1.toNat (ctx.readCount packet).2)
      (bigEndian 4 values.length ++ values.flatMap encode)
      (⟨4, false⟩ :: values.flatMap leaves) := by
  have hmany := Cut.many hbody values
  have hlength := length_le_length_flatMap hpos values
  have hfour : (bigEndian 4 values.length).length = 4 := length_bigEndian _ _
  -- a count that fits is the right one, and the loop starts behind it
  have hread : ∀ {reader : Reader}, reader.offset + 4 ≤ packet.size → values.length < 2 ^ 32 →
      Ready packet reader.offset (bigEndian 4 values.length ++ values.flatMap encode) →
        readMany body (ReadContext.readCount packet ⟨reader, true⟩).1.toNat
            (ReadContext.readCount packet ⟨reader, true⟩).2 =
          readMany body values.length
            ⟨⟨reader.offset + 4, (reader.offset, 4) :: reader.reads⟩, true⟩ ∧
        Ready packet (reader.offset + 4) (values.flatMap encode) := by
    intro reader hfits hcount hready
    have hholds := hready.left.holds hfits (by rw [hfour]; exact hfits)
    obtain ⟨hcountRead, htoNat⟩ := readCount_of_room hsize hholds hfits hcount
    have hnext := hready.right (by rw [hfour]; exact hfits)
    rw [hfour] at hnext
    rw [hcountRead]
    change readMany body (BitVec.ofNat 32 values.length).toNat _ = _ ∧ _
    rw [htoNat]
    exact ⟨rfl, hnext⟩
  refine ⟨?_, ?_, ?_⟩
  · intro reader stop hstart hbound hready hstop
    rw [List.length_append, hfour] at hbound ⊢
    by_cases hfits : reader.offset + 4 ≤ packet.size
    · obtain ⟨hjob, hnext⟩ := hread hfits (by omega) hready
      rw [stops, if_pos hfits] at hstop
      have hbound' : reader.offset + 4 + (values.flatMap encode).length < 2 ^ 32 := by omega
      obtain ⟨⟨value, reads, hvalues⟩, hinside, hwithin, hwhere⟩ := hmany.stops_some
        ⟨reader.offset + 4, (reader.offset, 4) :: reader.reads⟩ hfits hbound' hnext hstop
      change stop ≤ reader.offset + 4 + _ at hwithin
      change stop = reader.offset + 4 + _ ∨ _ at hwhere
      exact ⟨⟨value, reads, hjob.trans hvalues⟩, hinside, by omega, by omega⟩
    · rw [stops, if_neg hfits] at hstop
      cases hstop
  · intro reader rest hstart hbound hready hstop
    rw [List.length_append, hfour] at hbound
    by_cases hfits : reader.offset + 4 ≤ packet.size
    · obtain ⟨hjob, hnext⟩ := hread hfits (by omega) hready
      rw [stops, if_pos hfits] at hstop
      have hbound' : reader.offset + 4 + (values.flatMap encode).length + rest < 2 ^ 32 := by omega
      have hdoomed := hmany.stops_none
        ⟨reader.offset + 4, (reader.offset, 4) :: reader.reads⟩ rest hfits hbound' hnext
        hstop
      rw [← hjob] at hdoomed
      exact hdoomed
    · obtain ⟨hzero, hfailed⟩ := readCount_spoiled ⟨reader, true⟩
        (Or.inr ⟨Nat.lt_of_not_le hfits, by change reader.offset + 4 < _; omega⟩)
      left
      rw [hzero]
      exact hfailed
  · intro rest ctx hdoomed
    rw [List.length_append, hfour] at hdoomed
    have hspoiled : ctx.mOk = false ∨ packet.size < ctx.reader.offset + 4 ∧
        ctx.reader.offset + 4 < 2 ^ 32 := hdoomed.imp id fun hbehind => ⟨by omega, by omega⟩
    obtain ⟨hzero, hfailed⟩ := readCount_spoiled ctx hspoiled
    left
    rw [hzero]
    exact hfailed

include hsize in
/-- Every field kind is cut as its leaves say. -/
theorem Kind.cut {α : Type} (kind : Kind α) (value : α) :
    Cut packet (kind.deserialize packet) (kind.encode value) (kind.leaves value) := by
  induction kind with
  | bool =>
      exact Cut.fixed ((readsFixed_getRawUInt 1).option_map (· != 0)) false (length_bigEndian _ _)
  | uint width => exact cut_readUInt width value
  | time =>
      exact Cut.fixed ((readsFixed_getRawUInt 8).option_map Int64.ofNat) 0 (length_bigEndian _ _)
  | string => exact cut_string hsize value
  | id width hwidth => exact Cut.fixed (readsFixed_getId width) _ value.2
  | flags32 => exact cut_flags32 hsize value
  | enum width => exact cut_readUInt width value
  | memBlock initialSize => exact cut_memBlock hsize initialSize value
  | vector kind ih =>
      have hcut := Cut.counted hsize kind.leaves kind.length_encode_pos ih value.1
      refine ⟨?_, hcut.stops_none, hcut.doomed⟩
      intro reader stop hstart hbound hready hstop
      obtain ⟨⟨values, reads, hread⟩, hrest⟩ := hcut.stops_some _ hstart hbound hready hstop
      rw [Prod.ext_iff] at hread
      exact ⟨⟨_, reads, Prod.ext rfl hread.2⟩, hrest⟩
  | list kind ih => exact Cut.counted hsize kind.leaves kind.length_encode_pos ih value
  | @set α order kind ih =>
      have hcut := (Cut.counted hsize kind.leaves kind.length_encode_pos ih (value.sort (· ≤ ·))).map
        fun values => values.foldl (fun (set : Finset α) value => insert value set) ∅
      rw [Finset.length_sort] at hcut
      exact hcut
  | map key element ihKey ihElement =>
      have hcut := (Cut.counted hsize (fun entry => key.leaves entry.1 ++ element.leaves entry.2)
        (key.length_encode_entry_pos element)
        (fun entry => (ihKey entry.1).pair (ihElement entry.2)) value.toList).map
        fun entries =>
          entries.foldl (fun (map : OrderedMap _ _) entry => map.insert entry.1 entry.2) ∅
      rw [Std.ExtTreeMap.length_toList] at hcut
      exact hcut
  | pair first second ihFirst ihSecond => exact (ihFirst value.1).pair (ihSecond value.2)

include hsize in
theorem Members.cut {α : Type} (members : Members α) (fields : α) :
    Cut packet (members.deserialize packet) (members.encode fields) (members.leaves fields) := by
  induction members with
  | nil => exact Cut.skip packet
  | cons kind rest ih => exact (kind.cut hsize fields.1).pair (ih fields.2)

end Jobs

/-- **Truncation.** A proper prefix of a serialised item, of at least the header's length, is refused
exactly when some field that does not fit is not a `t_RsFlags32`. -/
theorem deserialise_prefix_none_iff (item : RsItem) (createItem : Nat → Nat → Option ItemClass)
    (hcreate : createItem (getRsItemService item.packetId.toNat)
      (getRsItemSubType item.packetId.toNat) = some item.cls)
    (hsize : item.encode.length < 2 ^ 32) {buffer written : Memory} {room length : Nat}
    (hwritten : item.serialise ⟨false⟩ buffer room = .ok (true, written, length))
    {data : Memory} {size : Nat} (hsame : ∀ i < size, data i = written i) (hheader : 8 ≤ size)
    (hproper : size < length) :
    (deserialise createItem ⟨false⟩ data size).item = none ↔
      stops size (item.cls.members.leaves item.fields) 8 = none := by
  have hroom : item.encode.length ≤ room := by
    by_contra hshort
    rw [RsItem.serialise] at hwritten
    simp only at hwritten
    rw [item.size_eq hsize, if_pos (Nat.lt_of_not_le hshort)] at hwritten
    cases hwritten
  rw [item.serialise_eq buffer hsize hroom] at hwritten
  cases hwritten
  have hlength := item.length_encode
  have hholds : Holds data 0 (item.encode.take size) := by
    have htake : (item.encode.take size).length = size := by
      rw [List.length_take]
      omega
    have hblit := holds_blit buffer 0 item.encode
    rw [← List.take_append_drop size item.encode, holds_append_iff, List.take_append_drop] at hblit
    unfold Holds at hblit ⊢
    rw [htake] at hblit ⊢
    rw [← hblit.1]
    refine List.map_congr_left fun i hi => ?_
    rw [List.mem_range] at hi
    exact hsame (0 + i) (by omega)
  have height : (bigEndian 4 item.packetId.toNat ++
      bigEndian 4 (8 + (item.cls.members.encode item.fields).length)).length = 8 := by
    rw [List.length_append, length_bigEndian, length_bigEndian]
  have hencode : item.encode = (bigEndian 4 item.packetId.toNat ++
      bigEndian 4 (8 + (item.cls.members.encode item.fields).length)) ++
        item.cls.members.encode item.fields := (List.append_assoc _ _ _).symm
  rw [hencode] at hholds
  obtain ⟨hhead, hfields⟩ := holds_take_append hholds
  rw [List.take_of_length_le (by omega), holds_append_iff] at hhead
  rw [List.take_of_length_le (by omega), height] at hfields
  have hid := getRsItemId_of_holds hhead.1 item.packetId.isLt
  have hcut := item.cls.members.cut (show (Packet.mk data size).size < 2 ^ 32 by change size < _; omega)
    item.fields
  have hready : Ready ⟨data, size⟩ 8 (item.cls.members.encode item.fields) := Or.inr hfields
  rw [deserialise, if_neg (by decide), hid]
  simp only
  rw [hcreate]
  simp only
  cases hstop : stops size (item.cls.members.leaves item.fields) 8 with
  | some stop =>
      obtain ⟨⟨value, reads, hread⟩, hinside, _⟩ := hcut.stops_some ⟨8, [(0, 4)]⟩ hheader
        (by change 8 + _ < _; omega) hready hstop
      rw [hread]
      simp only
      rw [if_neg (Nat.not_lt.mpr hinside), if_pos trivial]
      constructor
      · intro hnone
        cases hnone
      · intro hnone
        cases hnone
  | none =>
      have hdoomed := hcut.stops_none ⟨8, [(0, 4)]⟩ 0 hheader
        (by change 8 + _ + 0 < _; omega) hready hstop
      refine ⟨fun _ => rfl, fun _ => ?_⟩
      split
      · rfl
      · next hinside =>
          rw [if_neg]
          exact fun hok => by
            cases hdoomed with
            | inl hfailed =>
                have hcontra := hok.symm.trans hfailed
                cases hcontra
            | inr hbehind => exact hinside hbehind.1

/-- A 32-bit integer cut in the middle. -/
theorem deserialise_prefix_none_uint32 :
    let item : RsItem :=
      { packetId := 0x02021301#32, cls := ⟨_, .cons (.uint .word32) .nil⟩, fields := (7#32, ()) }
    (deserialise (fun _ _ => some item.cls) ⟨false⟩ (blit (fun _ => 0) 0 item.encode) 10).item =
      none := by
  intro item
  refine (deserialise_prefix_none_iff item _ rfl (by decide)
    (item.serialise_eq (fun _ => 0) (by decide) (show item.encode.length ≤ 12 by decide)) (fun _ _ => rfl) (by decide) (by decide)).mpr ?_
  decide

/-- The header alone is taken for an item of one `t_RsFlags32`. -/
theorem deserialise_prefix_accepted :
    ¬ ∀ (item : RsItem) (createItem : Nat → Nat → Option ItemClass) (buffer written data : Memory)
      (room length size : Nat),
      createItem (getRsItemService item.packetId.toNat) (getRsItemSubType item.packetId.toNat) =
          some item.cls →
        item.serialise ⟨false⟩ buffer room = .ok (true, written, length) →
          (∀ i < size, data i = written i) → 8 ≤ size → size < length →
            (deserialise createItem ⟨false⟩ data size).item = none := by
  intro hrefused
  let item : RsItem :=
    { packetId := 0x02021301#32, cls := ⟨_, .cons .flags32 .nil⟩, fields := (1#32, ()) }
  have hnone := hrefused item (fun _ _ => some item.cls) (fun _ => 0)
    (blit (fun _ => 0) 0 item.encode) (blit (fun _ => 0) 0 item.encode) 12 12 8 rfl
    (item.serialise_eq _ (by decide) (by decide)) (fun _ _ => rfl) (by decide) (by decide)
  have hsome : (deserialise (fun _ _ => some item.cls) ⟨false⟩
      (blit (fun _ => 0) 0 item.encode) 8).item.isSome = true := by decide
  rw [hnone] at hsome
  exact absurd hsome nofun

end RetroShare.Serialiser
