import Mathlib.Data.Finset.Sort
import RetroShare.Foundation.OrderedMap
import RetroShare.Serialiser.BaseSerial

/-!
# Typed fields

`RsTypeSerializer::serial_process` is overloaded on the type of the field it is given. The overloads
with a binary form are the constructors of `Kind`, indexed by the values the field takes, and each
job is a recursion over a `Kind`.
-/

namespace RetroShare.Serialiser

open Bytes

/-- `MAX_SERIALIZED_CHUNK_SIZE`. -/
def maxSerializedChunkSize : Nat := 10 * 1024 * 1024

/-- Unsigned integer types, by size. -/
inductive Width
  | byte
  | word16
  | word32
  | word64
  deriving DecidableEq, Repr

def Width.bytes : Width → Nat
  | byte => 1
  | word16 => 2
  | word32 => 4
  | word64 => 8

abbrev Width.Value (width : Width) : Type := BitVec (8 * width.bytes)

abbrev MemBlock : Type := { bytes : List UInt8 // bytes.length ≤ maxSerializedChunkSize }

/-- The supported field kinds. A binary block carries the value that its size member has in a fresh
item; a vector is indexed by a 32-bit counter and is no longer than that. -/
inductive Kind : Type → Type 1
  | bool : Kind Bool
  | uint (width : Width) : Kind width.Value
  | time : Kind Int64
  | string : Kind (List UInt8)
  | id (width : Nat) (hwidth : 0 < width ∧ width < 2 ^ 32) :
      Kind { bytes : List UInt8 // bytes.length = width }
  | flags32 : Kind (BitVec 32)
  | enum (width : Width) : Kind width.Value
  | memBlock (initialSize : Nat) : Kind MemBlock
  | vector {α : Type} (kind : Kind α) : Kind { values : List α // values.length < 2 ^ 32 }
  | list {α : Type} (kind : Kind α) : Kind (List α)
  | set {α : Type} [LinearOrder α] (kind : Kind α) : Kind (Finset α)
  | map {α β : Type} [LinearOrder α] (key : Kind α) (value : Kind β) : Kind (OrderedMap α β)
  | pair {α β : Type} (first : Kind α) (second : Kind β) : Kind (α × β)

/-- The members an item's `serial_process` visits, in order. -/
inductive Members : Type → Type 1
  | nil : Members Unit
  | cons {α β : Type} (kind : Kind α) (rest : Members β) : Members (α × β)

/-- A field of a fresh item, or a container element before it is read. -/
def Kind.initial {α : Type} : Kind α → α
  | bool => false
  | uint _ => 0
  | time => 0
  | string => []
  | id width _ => ⟨List.replicate width 0, List.length_replicate⟩
  | flags32 => 0
  | enum _ => 0
  | memBlock _ => ⟨[], Nat.zero_le _⟩
  | vector _ => ⟨[], Nat.two_pow_pos _⟩
  | list _ => []
  | set _ => ∅
  | map _ _ => ∅
  | pair first second => (first.initial, second.initial)

/-! ### `SIZE_ESTIMATE` -/

section Sorted

variable {α : Type} [LinearOrder α]

instance (priority := 2000) isTransSorted : IsTrans α (· ≤ ·) := inferInstance

instance (priority := 2000) antisymmSorted : Std.Antisymm (· ≤ · : α → α → Prop) := inferInstance

instance (priority := 2000) totalSorted : Std.Total (· ≤ · : α → α → Prop) := inferInstance

end Sorted

/-- `ctx.mOffset` after the field has been counted. -/
def Kind.sizeEstimate {α : Type} : Kind α → α → Nat → Nat
  | bool, _, offset => Word.add 32 offset 1
  | uint width, _, offset => Word.add 32 offset width.bytes
  | time, _, offset => Word.add 32 offset 8
  | string, str, offset => Word.add 32 offset (getRawStringSize str)
  | id width _, _, offset => Word.add 32 offset width
  | flags32, _, offset => Word.add 32 offset 4
  | enum width, _, offset => Word.add 32 offset width.bytes
  | memBlock _, block, offset => Word.add 32 offset (Word.add 32 4 block.1.length)
  | vector kind, values, offset =>
      values.1.foldl (fun offset value => kind.sizeEstimate value offset) (Word.add 32 offset 4)
  | list kind, values, offset =>
      values.foldl (fun offset value => kind.sizeEstimate value offset) (Word.add 32 offset 4)
  | set kind, values, offset =>
      (values.sort (· ≤ ·)).foldl (fun offset value => kind.sizeEstimate value offset)
        (Word.add 32 offset 4)
  | map key value, entries, offset =>
      entries.toList.foldl
        (fun offset entry => value.sizeEstimate entry.2 (key.sizeEstimate entry.1 offset))
        (Word.add 32 offset 4)
  | pair first second, values, offset =>
      second.sizeEstimate values.2 (first.sizeEstimate values.1 offset)

def Members.sizeEstimate {α : Type} : Members α → α → Nat → Nat
  | nil, _, offset => offset
  | cons kind rest, fields, offset => rest.sizeEstimate fields.2 (kind.sizeEstimate fields.1 offset)

/-! ### `SERIALIZE` -/

/-- The parts of a `SerializeContext` that writing uses. -/
structure WriteContext where
  writer : Writer
  mOk : Bool

/-- `ctx.mOk = ctx.mOk && serialize(...)`. -/
def WriteContext.process (raw : Writer → Bool × Writer) (ctx : WriteContext) : WriteContext :=
  if ctx.mOk then
    let (ok, writer) := raw ctx.writer
    { writer := writer, mOk := ok }
  else ctx

/-- `serialize<TlvMemBlock_proxy>`: the block is copied whether or not its size was written. -/
def serializeMemBlock (size : Nat) (block : List UInt8) (writer : Writer) : Bool × Writer :=
  let (ok, after) := setRawUInt32 size block.length writer
  let after := after.put block
  (ok, if ok then after else { after with offset := writer.offset })

/-- A container's element count, as a 32-bit integer. -/
def WriteContext.writeCount (size count : Nat) (ctx : WriteContext) : WriteContext :=
  ctx.process (setRawUInt32 size (Word.wrap 32 count))

def Kind.serialize {α : Type} : Kind α → Nat → α → WriteContext → WriteContext
  | bool, size, member, ctx => ctx.process (setRawUInt8 size member.toNat)
  | uint width, size, member, ctx => ctx.process (setRawUInt width.bytes size member.toNat)
  | time, size, member, ctx => ctx.process (setRawTimeT size member)
  | string, size, member, ctx => ctx.process (setRawString size member)
  | id _ _, size, member, ctx => ctx.process (setId size member.1)
  -- the outcome is dropped, and `ctx.mOk` is not consulted
  | flags32, size, member, ctx =>
      { ctx with writer := (setRawUInt32 size member.toNat ctx.writer).2 }
  | enum width, size, member, ctx => ctx.process (setRawUInt width.bytes size member.toNat)
  | memBlock _, size, block, ctx => ctx.process (serializeMemBlock size block.1)
  | vector kind, size, values, ctx =>
      values.1.foldl (fun ctx value => kind.serialize size value ctx)
        (ctx.writeCount size values.1.length)
  | list kind, size, values, ctx =>
      values.foldl (fun ctx value => kind.serialize size value ctx)
        (ctx.writeCount size values.length)
  | set kind, size, values, ctx =>
      (values.sort (· ≤ ·)).foldl (fun ctx value => kind.serialize size value ctx)
        (ctx.writeCount size values.card)
  | map key value, size, entries, ctx =>
      entries.toList.foldl
        (fun ctx entry => value.serialize size entry.2 (key.serialize size entry.1 ctx))
        (ctx.writeCount size entries.size)
  | pair first second, size, values, ctx =>
      second.serialize size values.2 (first.serialize size values.1 ctx)

def Members.serialize {α : Type} : Members α → Nat → α → WriteContext → WriteContext
  | nil, _, _, ctx => ctx
  | cons kind rest, size, fields, ctx =>
      rest.serialize size fields.2 (kind.serialize size fields.1 ctx)

/-! ### `DESERIALIZE` -/

/-- The parts of a `SerializeContext` that reading uses. -/
structure ReadContext where
  reader : Reader
  mOk : Bool

/-- `ctx.mOk = ctx.mOk && deserialize(...)`, into a member that holds `initial` before. -/
def ReadContext.process {α : Type} (raw : Reader → Option α × Reader) (initial : α)
    (ctx : ReadContext) : α × ReadContext :=
  if ctx.mOk then
    let (out, reader) := raw ctx.reader
    (out.getD initial, { reader := reader, mOk := out.isSome })
  else (initial, ctx)

/-- `deserialize<TlvMemBlock_proxy>`. When the size cannot be read the size member keeps the value
it had, and that many bytes are copied all the same. -/
def deserializeMemBlock (initialSize : Nat) (packet : Packet) (reader : Reader) :
    Option MemBlock × Reader :=
  let (word, after) := getRawUInt32 packet reader
  let len := word.getD initialSize
  if len = 0 then
    match word with
    | some _ => (some ⟨[], Nat.zero_le _⟩, after)
    | none => (none, { after with offset := reader.offset })
  else if hlen : maxSerializedChunkSize < len then (none, { after with offset := reader.offset })
  else
    let copied := (after.take packet len).2
    match word with
    | some _ =>
        (some ⟨slice packet.data after.offset len, by rw [length_slice]; exact Nat.le_of_not_lt hlen⟩,
          copied)
    | none => (none, { copied with offset := reader.offset })

/-- An unsigned integer member. -/
def ReadContext.readUInt (width : Width) (packet : Packet) (ctx : ReadContext) :
    width.Value × ReadContext :=
  ctx.process
    (fun reader =>
      let (n, reader) := getRawUInt width.bytes packet reader
      (n.map (BitVec.ofNat _), reader))
    0

/-- A container's element count, `0` unless it can be read. -/
def ReadContext.readCount (packet : Packet) (ctx : ReadContext) : BitVec 32 × ReadContext :=
  ctx.readUInt .word32 packet

/-- `count` runs of a loop body that reads one element. -/
def readMany {α : Type} (body : ReadContext → α × ReadContext) :
    Nat → ReadContext → List α × ReadContext
  | 0, ctx => ([], ctx)
  | count + 1, ctx =>
      let (value, ctx) := body ctx
      let (values, ctx) := readMany body count ctx
      (value :: values, ctx)

theorem length_readMany {α : Type} (body : ReadContext → α × ReadContext) (count : Nat)
    (ctx : ReadContext) : (readMany body count ctx).1.length = count := by
  induction count generalizing ctx with
  | zero => rfl
  | succ count ih => exact congrArg Nat.succ (ih _)

def Kind.deserialize {α : Type} : Kind α → Packet → ReadContext → α × ReadContext
  | bool, packet, ctx =>
      ctx.process
        (fun reader =>
          let (byte, reader) := getRawUInt8 packet reader
          (byte.map (· != 0), reader))
        false
  | uint width, packet, ctx => ctx.readUInt width packet
  | time, packet, ctx => ctx.process (getRawTimeT packet) 0
  | string, packet, ctx => ctx.process (getRawString packet) []
  | id width hwidth, packet, ctx => ctx.process (getId width packet) (id width hwidth).initial
  -- the outcome is dropped, and `ctx.mOk` is not consulted
  | flags32, packet, ctx =>
      let (n, reader) := getRawUInt32 packet ctx.reader
      (BitVec.ofNat 32 (n.getD 0), { ctx with reader := reader })
  | enum width, packet, ctx => ctx.readUInt width packet
  | memBlock initialSize, packet, ctx =>
      ctx.process (deserializeMemBlock initialSize packet) ⟨[], Nat.zero_le _⟩
  | vector kind, packet, ctx =>
      let (count, ctx) := ctx.readCount packet
      (⟨(readMany (kind.deserialize packet) count.toNat ctx).1,
          by rw [length_readMany]; exact count.isLt⟩,
        (readMany (kind.deserialize packet) count.toNat ctx).2)
  | list kind, packet, ctx =>
      let (count, ctx) := ctx.readCount packet
      readMany (kind.deserialize packet) count.toNat ctx
  | set kind, packet, ctx =>
      let (count, ctx) := ctx.readCount packet
      let (values, ctx) := readMany (kind.deserialize packet) count.toNat ctx
      (values.foldl (fun set value => insert value set) ∅, ctx)
  | map key value, packet, ctx =>
      let (count, ctx) := ctx.readCount packet
      let (entries, ctx) := readMany
        (fun ctx =>
          let (t, ctx) := key.deserialize packet ctx
          let (u, ctx) := value.deserialize packet ctx
          ((t, u), ctx))
        count.toNat ctx
      (entries.foldl (fun map entry => map.insert entry.1 entry.2) ∅, ctx)
  | pair first second, packet, ctx =>
      let (left, ctx) := first.deserialize packet ctx
      let (right, ctx) := second.deserialize packet ctx
      ((left, right), ctx)

def Members.deserialize {α : Type} : Members α → Packet → ReadContext → α × ReadContext
  | nil, _, ctx => ((), ctx)
  | cons kind rest, packet, ctx =>
      let (field, ctx) := kind.deserialize packet ctx
      let (fields, ctx) := rest.deserialize packet ctx
      ((field, fields), ctx)

end RetroShare.Serialiser
