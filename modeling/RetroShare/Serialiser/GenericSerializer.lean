import RetroShare.Serialiser.TypeSerializer

/-!
# Items

`RsGenericSerializer::size` and `serialise`, and `RsServiceSerializer::deserialise`. Memory
allocation is taken to succeed.
-/

namespace RetroShare.Serialiser

open Bytes

/-- An item class, as far as serialisation sees it: the members its `serial_process` visits. -/
structure ItemClass where
  Fields : Type
  members : Members Fields

structure RsItem where
  packetId : BitVec 32
  cls : ItemClass
  fields : cls.Fields

/-- The one flag of `SerializationFlags` that these functions read. -/
structure SerializationFlags where
  skipHeader : Bool

def RsItem.size (flags : SerializationFlags) (item : RsItem) : Nat :=
  item.cls.members.sizeEstimate item.fields (if flags.skipHeader then 0 else 8)

/-- The result, the memory and `*size` after the call, or the exception's text. -/
def RsItem.serialise (flags : SerializationFlags) (item : RsItem) (data : Memory) (size : Nat) :
    Except String (Bool × Memory × Nat) :=
  let tlvsize := item.size flags
  if size < tlvsize then .error "Cannot serialise: not enough room."
  else
    let (headerOk, data, offset) :=
      if flags.skipHeader then (true, data, 0)
      else
        let (ok, data) := setRsItemHeader data tlvsize item.packetId.toNat tlvsize
        (ok, data, 8)
    if !headerOk then .ok (false, data, size)
    else
      let ctx := item.cls.members.serialize tlvsize item.fields ⟨⟨data, offset⟩, true⟩
      if tlvsize ≠ ctx.writer.offset then .ok (false, ctx.writer.data, size)
      else .ok (true, ctx.writer.data, ctx.writer.offset)

/-- The item, `*size` after the call, and the bytes the call has read. -/
structure Deserialised where
  item : Option ((cls : ItemClass) × cls.Fields)
  size : Nat
  reads : List (Nat × Nat)

/-- `createItem service subtype` is the class of the fresh item that `create_item` returns. -/
def deserialise (createItem : Nat → Nat → Option ItemClass) (flags : SerializationFlags)
    (data : Memory) (size : Nat) : Deserialised :=
  if flags.skipHeader then ⟨none, size, []⟩
  else
    let (rstype, header) := getRsItemId data
    match createItem (getRsItemService rstype) (getRsItemSubType rstype) with
    | none => ⟨none, size, header.reads⟩
    | some cls =>
        let (fields, ctx) := cls.members.deserialize ⟨data, size⟩ ⟨⟨8, header.reads⟩, true⟩
        if size < ctx.reader.offset then ⟨none, size, ctx.reader.reads⟩
        else if ctx.mOk then ⟨some ⟨cls, fields⟩, ctx.reader.offset, ctx.reader.reads⟩
        else ⟨none, ctx.reader.offset, ctx.reader.reads⟩

end RetroShare.Serialiser
