import RetroShare.Serialiser.Tlv
import RetroShare.Util.RegularExpression

/-!
# Search expressions from the network

`toExpr` on vectors that anybody may have filled. Codes of operators are kept as they come, an index
behind the end of a vector is an outcome of its own, and `eval` says where it goes through a null
pointer.
-/

namespace RetroShare.RegularExpression

/-- What stops `toExpr`: an index outside of its vector, or a recursion that does not end. -/
inductive Fault
  | outside
  | unfinished
  deriving DecidableEq, Repr

/-- A `RelExpression<int>` with any operator. -/
structure RawRelExpression where
  op : UInt32
  lowerValue : Int32
  higherValue : Int32
  deriving DecidableEq, Repr

/-- A `StringExpression` with any operator. -/
structure RawStringExpression where
  op : UInt32
  terms : List (List UInt8)
  ignoreCase : Bool
  deriving DecidableEq, Repr

/-- What `toExpr` builds: paths become extensions, and a token it does not know a null pointer. -/
inductive RawExpression
  | null
  | date (rel : RawRelExpression)
  | pop (rel : RawRelExpression)
  | size (rel : RawRelExpression)
  | sizeMB (rel : RawRelExpression)
  | hash (op : UInt32) (terms : List (List UInt8))
  | name (str : RawStringExpression)
  | ext (str : RawStringExpression)
  | compound (op : UInt32) (left right : RawExpression)
  deriving DecidableEq, Repr

/-! ### Reading the vectors -/

section Packets

open Serialiser

/-- `n` elements one after the other, until one is not there. -/
def readMany {α : Type} (get : Reader → Option α × Reader) : Nat → Reader → Option (List α) × Reader
  | 0, reader => (some [], reader)
  | n + 1, reader =>
      match get reader with
      | (none, reader) => (none, reader)
      | (some value, reader) =>
          let (values, reader) := readMany get n reader
          (values.map (value :: ·), reader)

/-- A vector with its size in front. -/
def readVector {α : Type} (packet : Packet) (get : Reader → Option α × Reader) (reader : Reader) :
    Option (List α) × Reader :=
  match getRawUInt32 packet reader with
  | (none, reader) => (none, reader)
  | (some n, reader) => readMany get n reader

/-- `TLV_TYPE_STR_VALUE` -/
def tlvTypeStrValue : Nat := 0x54

/-- `RsTypeSerializer::deserialize` for a `LinearizedExpression`. -/
def deserialize (packet : Packet) (reader : Reader) : Option LinearizedExpression :=
  let (tokens, reader) := readVector packet (getRawUInt8 packet) reader
  let (ints, reader) := readVector packet (getRawUInt32 packet) reader
  let (strings, _) := readVector packet (getTlvString tlvTypeStrValue packet) reader
  match tokens, ints, strings with
  | some tokens, some ints, some strings =>
      some ⟨tokens.map UInt8.ofNat, ints.map UInt32.ofNat, strings⟩
  | _, _, _ => none

end Packets

/-! ### Evaluation -/

def RawRelExpression.evalRel (rel : RawRelExpression) (val : Int32) : Bool :=
  match RelOperator.ofCode? rel.op with
  | some op => RelExpression.evalRel ⟨op, rel.lowerValue, rel.higherValue⟩ val
  | none => false

def RawStringExpression.evalStr (expr : RawStringExpression) (str : List UInt8) : Bool :=
  match StringOperator.ofCode? expr.op with
  | some op => StringExpression.evalStr ⟨op, expr.terms, expr.ignoreCase⟩ str
  | none => false

/-- `none` where the call goes through a null pointer. -/
def RawExpression.eval : RawExpression → ExpFileEntry → Option Bool
  | null, _ => none
  | date rel, file => some (rel.evalRel file.fileModtime.toInt32)
  | pop rel, file => some (rel.evalRel file.filePopularity.toInt32)
  | size rel, file => some (rel.evalRel file.fileSize.toUInt32.toInt32)
  | sizeMB rel, file => some (rel.evalRel (file.fileSize / (1024 * 1024)).toUInt32.toInt32)
  | hash op terms, file =>
      some (RawStringExpression.evalStr ⟨op, terms, true⟩ (toStdString file.fileHash.1))
  | name str, file => some (str.evalStr file.fileName)
  | ext str, file =>
      some (if fileExtension file.fileName = [] then false
        else str.evalStr (fileExtension file.fileName))
  | compound op left right, file =>
      if left = null ∨ right = null then some false
      else
        match LogicalOperator.ofCode? op with
        | some .andOp => (left.eval file).bind fun l => if l then right.eval file else some false
        | some .orOp => (left.eval file).bind fun l => if l then some true else right.eval file
        | some .xorOp => (left.eval file).bind fun l => (right.eval file).map (l ^^ ·)
        | none => some false

/-! ### Rebuilding -/

/-- An access that is to stay inside. -/
def inside {α : Type} : Option α → Except Fault α
  | some a => .ok a
  | none => .error .outside

namespace LinearizedExpression

def readRawRel (e : LinearizedExpression) (cur : Cursor) :
    Except Fault (RawRelExpression × Cursor) := do
  let (op, n) ← inside (fetch e.ints cur.ints)
  let (lv, n) ← inside (fetch e.ints n)
  let (hv, n) ← inside (fetch e.ints n)
  return (⟨op, lv.toInt32, hv.toInt32⟩, { cur with ints := n })

/-- How many strings a count asks for; it is an `int`. -/
def wanted (count : UInt32) : Nat := count.toInt32.toInt.toNat

def readRawString (e : LinearizedExpression) (cur : Cursor) :
    Except Fault (RawStringExpression × Cursor) := do
  let (op, n) ← inside (fetch e.ints cur.ints)
  let (b, n) ← inside (fetch e.ints n)
  let (count, n) ← inside (fetch e.ints n)
  let (strings, m) ← inside (fetchMany e.strings (wanted count) cur.strings)
  return (⟨op, strings, b != 0⟩, { cur with ints := n, strings := m })

/-- `toExpr` from the three indices on, so many calls deep. -/
def toRawFrom (e : LinearizedExpression) : Nat → Cursor → Except Fault (RawExpression × Cursor)
  | 0, _ => .error .unfinished
  | depth + 1, cur => do
      let (code, n) ← inside (fetch e.tokens cur.tok)
      let cur := { cur with tok := n }
      match Token.ofCode? code with
      | none => return (.null, cur)
      | some .date => (e.readRawRel cur).map fun (rel, cur) => (.date rel, cur)
      | some .pop => (e.readRawRel cur).map fun (rel, cur) => (.pop rel, cur)
      | some .size => (e.readRawRel cur).map fun (rel, cur) => (.size rel, cur)
      | some .hash => (e.readRawString cur).map fun (str, cur) => (.hash str.op str.terms, cur)
      | some .name => (e.readRawString cur).map fun (str, cur) => (.name str, cur)
      | some .path => (e.readRawString cur).map fun (str, cur) => (.ext str, cur)
      | some .ext => (e.readRawString cur).map fun (str, cur) => (.ext str, cur)
      | some .comp =>
          let (op, n) ← inside (fetch e.ints cur.ints)
          let (e1, cur) ← e.toRawFrom depth { cur with ints := n }
          let (e2, cur) ← e.toRawFrom depth cur
          return (.compound op e1 e2, cur)
      | some .sizeMB => (e.readRawRel cur).map fun (rel, cur) => (.sizeMB rel, cur)

/-- `toExpr`. Every call reads a token, so it is never deeper than there are tokens. -/
def toRaw (e : LinearizedExpression) : Except Fault RawExpression :=
  (e.toRawFrom (e.tokens.length + 1) ⟨0, 0, 0⟩).map Prod.fst

end LinearizedExpression

end RetroShare.RegularExpression
