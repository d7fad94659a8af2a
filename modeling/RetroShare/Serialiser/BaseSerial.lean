import RetroShare.Foundation.Word
import RetroShare.Foundation.Bytes

/-!
# Raw fields

The `getRaw`/`setRaw` pairs and the packet header. All arithmetic on offsets is 32-bit. The model of
a read also records which bytes it touched.
-/

namespace RetroShare.Serialiser

open Bytes

/-- The memory behind the data pointer, and the packet size passed along with it. -/
structure Packet where
  data : Memory
  size : Nat

/-- A reading position. `reads` lists the runs of bytes taken from memory so far, as start and
length, latest first. -/
structure Reader where
  offset : Nat
  reads : List (Nat × Nat)

/-- Copy `count` bytes out of the packet and step over them. -/
def Reader.take (packet : Packet) (count : Nat) (reader : Reader) : List UInt8 × Reader :=
  (slice packet.data reader.offset count,
    { offset := Word.add 32 reader.offset count, reads := (reader.offset, count) :: reader.reads })

/-- A writing position and the memory written to. -/
structure Writer where
  data : Memory
  offset : Nat

def Writer.put (bytes : List UInt8) (writer : Writer) : Writer :=
  { data := blit writer.data writer.offset bytes
    offset := Word.add 32 writer.offset bytes.length }

/-! ### Integers -/

def getRawUInt (width : Nat) (packet : Packet) (reader : Reader) : Option Nat × Reader :=
  if packet.size < Word.add 32 reader.offset width then (none, reader)
  else
    let (bytes, reader) := reader.take packet width
    (some (ofBigEndian bytes), reader)

def getRawUInt8 : Packet → Reader → Option Nat × Reader := getRawUInt 1

def getRawUInt16 : Packet → Reader → Option Nat × Reader := getRawUInt 2

def getRawUInt32 : Packet → Reader → Option Nat × Reader := getRawUInt 4

def getRawUInt64 : Packet → Reader → Option Nat × Reader := getRawUInt 8

def setRawUInt (width : Nat) (size : Nat) (n : Nat) (writer : Writer) : Bool × Writer :=
  if size < Word.add 32 writer.offset width then (false, writer)
  else (true, writer.put (bigEndian width n))

def setRawUInt8 : Nat → Nat → Writer → Bool × Writer := setRawUInt 1

def setRawUInt16 : Nat → Nat → Writer → Bool × Writer := setRawUInt 2

def setRawUInt32 : Nat → Nat → Writer → Bool × Writer := setRawUInt 4

def setRawUInt64 : Nat → Nat → Writer → Bool × Writer := setRawUInt 8

/-! ### Strings and times -/

def getRawStringSize (str : List UInt8) : Nat := Word.wrap 32 (str.length + 4)

def getRawString (packet : Packet) (reader : Reader) : Option (List UInt8) × Reader :=
  match getRawUInt32 packet reader with
  | (none, reader) => (none, reader)
  | (some len, reader) =>
      if packet.size < len ∨ packet.size - len < reader.offset then (none, reader)
      else
        let (bytes, reader) := reader.take packet len
        (some bytes, reader)

def setRawString (size : Nat) (str : List UInt8) (writer : Writer) : Bool × Writer :=
  let len := Word.wrap 32 str.length
  if size < 4 ∨ size - 4 < len ∨ size - len - 4 < writer.offset then (false, writer)
  else
    match setRawUInt32 size len writer with
    | (false, writer) => (false, writer)
    | (true, writer) => (true, writer.put (str.take len))

def getRawTimeT (packet : Packet) (reader : Reader) : Option Int64 × Reader :=
  match getRawUInt64 packet reader with
  | (time, reader) => (time.map Int64.ofNat, reader)

def setRawTimeT (size : Nat) (time : Int64) (writer : Writer) : Bool × Writer :=
  setRawUInt64 size time.toUInt64.toNat writer

/-! ### Fixed-size ids -/

/-- `t_RsGenericIdType::deserialise`. -/
def getId (width : Nat) (packet : Packet) (reader : Reader) :
    Option { bytes : List UInt8 // bytes.length = width } × Reader :=
  if packet.size < Word.add 32 reader.offset width then (none, reader)
  else (some ⟨slice packet.data reader.offset width, length_slice _ _ _⟩,
    (reader.take packet width).2)

/-- `t_RsGenericIdType::serialise`. -/
def setId (size : Nat) (bytes : List UInt8) (writer : Writer) : Bool × Writer :=
  if size < Word.add 32 writer.offset bytes.length then (false, writer)
  else (true, writer.put bytes)

/-! ### The packet header -/

def setRsItemHeader (data : Memory) (size type pktsize : Nat) : Bool × Memory :=
  if size < 8 then (false, data)
  else
    let (typeOk, writer) := setRawUInt32 8 type ⟨data, 0⟩
    let (sizeOk, writer) := setRawUInt32 8 pktsize writer
    (typeOk && sizeOk, writer.data)

def getRsItemId (data : Memory) : Nat × Reader :=
  match getRawUInt32 ⟨data, 4⟩ ⟨0, []⟩ with
  | (type, reader) => (type.getD 0, reader)

def getRsItemService (type : Nat) : Nat := type / 2 ^ 8 % 2 ^ 16

def getRsItemSubType (type : Nat) : Nat := type % 2 ^ 8

end RetroShare.Serialiser
