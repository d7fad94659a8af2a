import RetroShare.Serialiser.BaseSerial

/-!
# Type-length-value records

The functions that write and read single records, and the two containers made of them: a list of
records of one class, and a set of strings. Lengths include the header of six bytes.
-/

namespace RetroShare.Serialiser

open Bytes

def tlvHeaderSize : Nat := 6

/-! ### Headers -/

/-- Bytes that are looked at without stepping over them. -/
def Reader.peek (packet : Packet) (place count : Nat) (reader : Reader) : Nat × Reader :=
  (ofBigEndian (slice packet.data place count),
    { reader with reads := (place, count) :: reader.reads })

def getTlvType (packet : Packet) (reader : Reader) : Nat × Reader :=
  reader.peek packet reader.offset 2

def getTlvSize (packet : Packet) (reader : Reader) : Nat × Reader :=
  reader.peek packet (reader.offset + 2) 4

def setTlvBase (size type len : Nat) (writer : Writer) : Bool × Writer :=
  if size < Word.add 32 writer.offset tlvHeaderSize then (false, writer)
  else (true, writer.put (bigEndian 2 type ++ bigEndian 4 len))

def skipUnknownTlv (packet : Packet) (reader : Reader) : Bool × Reader :=
  if packet.size < Word.add 32 reader.offset tlvHeaderSize then (false, reader)
  else
    let (tlvsize, reader) := getTlvSize packet reader
    let tlvend := Word.add 32 reader.offset tlvsize
    if packet.size < tlvend then (false, reader) else (true, { reader with offset := tlvend })

/-! ### Suspicious strings -/

/-- One hexadecimal digit. -/
def hexDigit (c : UInt8) : Option UInt8 :=
  if 97 ≤ c ∧ c ≤ 102 then some (c - 97 + 10)
  else if 65 ≤ c ∧ c ≤ 70 then some (c - 65 + 10)
  else if 48 ≤ c ∧ c ≤ 57 then some (c - 48)
  else none

def readHex (s1 s2 : UInt8) : Option UInt8 := do
  let high ← hexDigit s1
  let low ← hexDigit s2
  return (high <<< 4) + low

/-- The loop of `find_decoded_string`: the characters that are left, how many of them belong to an
escape that has been decoded, and how much of the suspicious string has been met. -/
def findDecodedFrom (suspicious : List UInt8) : List UInt8 → Nat → Nat → Bool
  | [], _, _ => false
  | _ :: rest, skip + 1, met => findDecodedFrom suspicious rest skip met
  | c :: rest, 0, met =>
      let decoded :=
        match rest with
        | s1 :: s2 :: _ => if c = 37 then readHex s1 s2 else none
        | _ => none
      let met := if suspicious[met]? = some (decoded.getD c) then met + 1 else 0
      if met = suspicious.length then true
      else findDecodedFrom suspicious rest (if decoded.isSome then 2 else 0) met

def findDecodedString (str suspicious : List UInt8) : Bool := findDecodedFrom suspicious str 0 0

/-- `"<!e"`, `"<!E"`, `"PD94bW"` and `"PHN2Zy"` -/
def suspiciousStrings : List (List UInt8) :=
  [[60, 33, 101], [60, 33, 69], [80, 68, 57, 52, 98, 87], [80, 72, 78, 50, 90, 121]]

/-- `"**** String removed (SVG bomb?) ****"` -/
def errIn : List UInt8 :=
  [42, 42, 42, 42, 32, 83, 116, 114, 105, 110, 103, 32, 114, 101, 109, 111, 118, 101, 100, 32, 40, 83,
    86, 71, 32, 98, 111, 109, 98, 63, 41, 32, 42, 42, 42, 42]

/-- The warning is cut or filled up with blanks to the size of the string. -/
def dropSuspicious (str : List UInt8) : List UInt8 :=
  if suspiciousStrings.any (findDecodedString str) then
    (List.range str.length).map fun k => errIn.getD k 32
  else str

/-- The types of strings that should not hold control characters. -/
def plainTypes : List Nat := [0, 0x50, 0x51, 0x52, 0x56, 0x58, 0x5c, 0x5f]

def blankControls (type : Nat) (str : List UInt8) : List UInt8 :=
  if type ∈ plainTypes then str.map fun c => if c < 0x20 ∧ 0 < c then 0x20 else c else str

/-! ### Strings -/

def getTlvStringSize (str : List UInt8) : Nat := Word.wrap 32 (tlvHeaderSize + str.length)

def setTlvString (size type : Nat) (out : List UInt8) (writer : Writer) : Bool × Writer :=
  let tlvsize := getTlvStringSize out
  let tlvend := Word.add 32 writer.offset tlvsize
  if size < tlvend then (false, writer)
  else
    let (ok, writer) := setTlvBase tlvend type tlvsize writer
    (ok, writer.put (out.take (Word.sub 32 tlvsize tlvHeaderSize)))

def getTlvString (type : Nat) (packet : Packet) (reader : Reader) :
    Option (List UInt8) × Reader :=
  if packet.size < reader.offset then (none, reader)
  else
    let (tlvtype, reader) := getTlvType packet reader
    let (tlvsize, reader) := getTlvSize packet reader
    if packet.size < Word.add 32 reader.offset tlvsize then (none, reader)
    else if type ≠ tlvtype then (none, reader)
    else
      let place := reader.offset + tlvHeaderSize
      let strsize := Word.sub 32 tlvsize tlvHeaderSize
      (some (blankControls type (dropSuspicious (slice packet.data place strsize))),
        { offset := Word.add 32 reader.offset tlvsize, reads := (place, strsize) :: reader.reads })

/-! ### Lists of records -/

/-- A class of records, as far as a list knows it. An object that is read into is a new one. -/
structure TlvItem (E : Type) where
  tlvSize : E → Nat
  setTlv : Nat → E → Writer → Bool × Writer
  getTlv : Packet → Reader → Option E × Reader

namespace TlvList

variable {E : Type} (item : TlvItem E) (tlvType : Nat)

def tlvSize (mList : List E) : Nat :=
  mList.foldl (fun size e => Word.add 32 size (item.tlvSize e)) tlvHeaderSize

/-- The elements are written one after the other, also when one of them does not fit. -/
def setItems (tlvend : Nat) (mList : List E) (ok : Bool) (writer : Writer) : Bool × Writer :=
  mList.foldl (fun acc e =>
    let (done, writer) := item.setTlv tlvend e acc.2
    (acc.1 && done, writer)) (ok, writer)

def setTlv (size : Nat) (mList : List E) (writer : Writer) : Bool × Writer :=
  let tlvsize := tlvSize item mList
  let tlvend := Word.add 32 writer.offset tlvsize
  if size < tlvend then (false, writer)
  else
    let (ok, writer) := setTlvBase tlvend tlvType tlvsize writer
    setItems item tlvend mList ok writer

/-- The loop over the elements, which has no outcome as long as it goes on. -/
def getItems (packet : Packet) : Nat → List E → Reader → Option (List E × Reader)
  | 0, _, _ => none
  | passes + 1, mList, reader =>
      if Word.add 32 reader.offset 6 < packet.size then
        match item.getTlv packet reader with
        | (some e, reader) => getItems packet passes (mList ++ [e]) reader
        | (none, reader) => some (mList, reader)
      else some (mList, reader)

/-- The result, and the list that held `mList` before. -/
def getTlv (passes : Nat) (packet : Packet) (mList : List E) (reader : Reader) :
    Option (Bool × List E × Reader) :=
  if packet.size < Word.add 32 reader.offset tlvHeaderSize then some (false, mList, reader)
  else
    let (type, reader) := getTlvType packet reader
    let (tlvsize, reader) := getTlvSize packet reader
    let tlvend := Word.add 32 reader.offset tlvsize
    if packet.size < tlvend then some (false, mList, reader)
    else if type ≠ tlvType then some (false, mList, reader)
    else do
      let (mList, reader) ← getItems item ⟨packet.data, tlvend⟩ passes []
        { reader with offset := Word.add 32 reader.offset tlvHeaderSize }
      return (reader.offset == tlvend, mList, reader)

end TlvList

/-! ### Sets of strings -/

def typeStrGenid : Nat := 0x5a

namespace TlvStringSet

variable (mType : Nat)

def tlvSize (ids : List (List UInt8)) : Nat :=
  ids.foldl (fun s id => if id.length > 0 then Word.add 32 s (getTlvStringSize id) else s)
    tlvHeaderSize

def setIds (tlvend : Nat) (ids : List (List UInt8)) (ok : Bool) (writer : Writer) :
    Bool × Writer :=
  ids.foldl (fun acc id =>
    if id.length > 0 then
      let (done, writer) := setTlvString tlvend typeStrGenid id acc.2
      (acc.1 && done, writer)
    else acc) (ok, writer)

def setTlv (size : Nat) (ids : List (List UInt8)) (writer : Writer) : Bool × Writer :=
  let tlvsize := tlvSize ids
  let tlvend := Word.add 32 writer.offset tlvsize
  if size < tlvend then (false, writer)
  else
    let (ok, writer) := setTlvBase tlvend mType tlvsize writer
    setIds tlvend ids ok writer

def getIds (packet : Packet) : Nat → List (List UInt8) → Reader →
    Option (Bool × List (List UInt8) × Reader)
  | 0, _, _ => none
  | passes + 1, ids, reader =>
      if Word.add 32 reader.offset 2 < packet.size then
        let (subtype, reader) := getTlvType packet reader
        if subtype = typeStrGenid then
          match getTlvString typeStrGenid packet reader with
          | (some id, reader) => getIds packet passes (ids ++ [id]) reader
          | (none, reader) => some (false, ids, reader)
        else
          match skipUnknownTlv packet reader with
          | (true, reader) => getIds packet passes ids reader
          | (false, reader) => some (false, ids, reader)
      else some (true, ids, reader)

/-- Bytes that are left over are stepped over. -/
def getTlv (passes : Nat) (packet : Packet) (ids : List (List UInt8)) (reader : Reader) :
    Option (Bool × List (List UInt8) × Reader) :=
  if packet.size < Word.add 32 reader.offset tlvHeaderSize then some (false, ids, reader)
  else
    let (type, reader) := getTlvType packet reader
    let (tlvsize, reader) := getTlvSize packet reader
    let tlvend := Word.add 32 reader.offset tlvsize
    if packet.size < tlvend then some (false, ids, reader)
    else if type ≠ mType then some (false, ids, reader)
    else do
      let (ok, ids, reader) ← getIds ⟨packet.data, tlvend⟩ passes []
        { reader with offset := Word.add 32 reader.offset tlvHeaderSize }
      return (ok, ids, { reader with offset := tlvend })

end TlvStringSet

end RetroShare.Serialiser
