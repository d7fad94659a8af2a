import Mathlib.Tactic

/-!
# Search expressions

`RsRegularExpression`: the expression classes with `eval`, `linearize` into three vectors, and
`toExpr`, which rebuilds an expression from them. Strings are byte strings and characters are
compared as in the C locale.
-/

namespace RetroShare.RegularExpression

inductive LogicalOperator
  | andOp
  | orOp
  | xorOp
  deriving DecidableEq, Repr

inductive StringOperator
  | containsAnyStrings
  | containsAllStrings
  | equalsString
  deriving DecidableEq, Repr

inductive RelOperator
  | equals
  | greaterEquals
  | greater
  | smallerEquals
  | smaller
  | inRange
  deriving DecidableEq, Repr

def LogicalOperator.code : LogicalOperator → UInt32
  | andOp => 0
  | orOp => 1
  | xorOp => 2

/-- `static_cast`; a code that names no operator has no outcome here. -/
def LogicalOperator.ofCode? : UInt32 → Option LogicalOperator
  | 0 => some andOp
  | 1 => some orOp
  | 2 => some xorOp
  | _ => none

def StringOperator.code : StringOperator → UInt32
  | containsAnyStrings => 0
  | containsAllStrings => 1
  | equalsString => 2

def StringOperator.ofCode? : UInt32 → Option StringOperator
  | 0 => some containsAnyStrings
  | 1 => some containsAllStrings
  | 2 => some equalsString
  | _ => none

def RelOperator.code : RelOperator → UInt32
  | equals => 0
  | greaterEquals => 1
  | greater => 2
  | smallerEquals => 3
  | smaller => 4
  | inRange => 5

def RelOperator.ofCode? : UInt32 → Option RelOperator
  | 0 => some equals
  | 1 => some greaterEquals
  | 2 => some greater
  | 3 => some smallerEquals
  | 4 => some smaller
  | 5 => some inRange
  | _ => none

/-- `EXPR_DATE` to `EXPR_SIZE_MB`. -/
inductive Token
  | date
  | pop
  | size
  | hash
  | name
  | path
  | ext
  | comp
  | sizeMB
  deriving DecidableEq, Repr

def Token.code : Token → UInt8
  | date => 0
  | pop => 1
  | size => 2
  | hash => 3
  | name => 4
  | path => 5
  | ext => 6
  | comp => 7
  | sizeMB => 8

def Token.ofCode? : UInt8 → Option Token
  | 0 => some date
  | 1 => some pop
  | 2 => some size
  | 3 => some hash
  | 4 => some name
  | 5 => some path
  | 6 => some ext
  | 7 => some comp
  | 8 => some sizeMB
  | _ => none

structure ExpFileEntry where
  fileName : List UInt8
  fileSize : UInt64
  fileModtime : Int64
  filePopularity : UInt32
  fileParentPath : List UInt8
  fileHash : { bytes : List UInt8 // bytes.length = 20 }

/-- The members of a `RelExpression<int>`. -/
structure RelExpression where
  op : RelOperator
  lowerValue : Int32
  higherValue : Int32
  deriving DecidableEq, Repr

/-- The members of a `StringExpression`. -/
structure StringExpression where
  op : StringOperator
  terms : List (List UInt8)
  ignoreCase : Bool
  deriving DecidableEq, Repr

/-- The expression classes. A `HashExpression` always ignores case, and has no member for it. `null`
is the null pointer, which `toExpr` returns for a token it does not know. -/
inductive Expression
  | null
  | date (rel : RelExpression)
  | pop (rel : RelExpression)
  | size (rel : RelExpression)
  | sizeMB (rel : RelExpression)
  | hash (op : StringOperator) (terms : List (List UInt8))
  | name (str : StringExpression)
  | path (str : StringExpression)
  | ext (str : StringExpression)
  | compound (op : LogicalOperator) (left right : Expression)
  deriving DecidableEq, Repr

/-! ### Evaluation -/

def RelExpression.evalRel (rel : RelExpression) (val : Int32) : Bool :=
  match rel.op with
  | .equals => rel.lowerValue == val
  | .greaterEquals => decide (rel.lowerValue ≥ val)
  | .greater => decide (rel.lowerValue > val)
  | .smallerEquals => decide (rel.lowerValue ≤ val)
  | .smaller => decide (rel.lowerValue < val)
  | .inRange => decide (rel.lowerValue ≤ val) && decide (val ≤ rel.higherValue)

def tolower (ch : UInt8) : UInt8 := if 65 ≤ ch ∧ ch ≤ 90 then ch + 32 else ch

def compareCharIC (ch1 ch2 : UInt8) : Bool := tolower ch1 == tolower ch2

def startsWith (same : UInt8 → UInt8 → Bool) : List UInt8 → List UInt8 → Bool
  | _, [] => true
  | [], _ :: _ => false
  | ch1 :: str1, ch2 :: str2 => same ch1 ch2 && startsWith same str1 str2

/-- `std::search`, as what is left of the string from the iterator on. -/
def search (same : UInt8 → UInt8 → Bool) : List UInt8 → List UInt8 → List UInt8
  | [], _ => []
  | ch :: str1, str2 =>
      if startsWith same (ch :: str1) str2 then ch :: str1 else search same str1 str2

def strContains (str1 str2 : List UInt8) (ignoreCase : Bool) : Bool :=
  !(search (if ignoreCase then compareCharIC else (· == ·)) str1 str2).isEmpty

/-- The outcome of the comparison that ignores case is dropped. -/
def strEquals (str1 str2 : List UInt8) (_ignoreCase : Bool) : Bool := str1 == str2

def StringExpression.evalStr (expr : StringExpression) (str : List UInt8) : Bool :=
  match expr.op with
  | .containsAllStrings => expr.terms.all fun term => strContains str term expr.ignoreCase
  | .containsAnyStrings => expr.terms.any fun term => strContains str term expr.ignoreCase
  | .equalsString => expr.terms.any fun term => strEquals str term expr.ignoreCase

/-- What follows the last `.` of the name; empty also when there is no `.`. -/
def fileExtension (fileName : List UInt8) : List UInt8 :=
  if 46 ∈ fileName then (fileName.reverse.takeWhile (· != 46)).reverse else []

def hexDigit (n : UInt8) : UInt8 := if n < 10 then 48 + n else 87 + n

/-- `RsFileHash::toStdString`: lower-case hexadecimal. -/
def toStdString (bytes : List UInt8) : List UInt8 :=
  bytes.flatMap fun (byte : UInt8) => [hexDigit (byte >>> 4), hexDigit (byte &&& 15)]

def Expression.eval : Expression → ExpFileEntry → Bool
  | null, _ => false
  | date rel, file => rel.evalRel file.fileModtime.toInt32
  | pop rel, file => rel.evalRel file.filePopularity.toInt32
  | size rel, file => rel.evalRel file.fileSize.toUInt32.toInt32
  | sizeMB rel, file => rel.evalRel (file.fileSize / (1024 * 1024)).toUInt32.toInt32
  | hash op terms, file => StringExpression.evalStr ⟨op, terms, true⟩ (toStdString file.fileHash.1)
  | name str, file => str.evalStr file.fileName
  | path str, file => str.evalStr file.fileParentPath
  | ext str, file =>
      if fileExtension file.fileName = [] then false else str.evalStr (fileExtension file.fileName)
  | compound op left right, file =>
      if left = null ∨ right = null then false
      else
        match op with
        | .andOp => left.eval file && right.eval file
        | .orOp => left.eval file || right.eval file
        | .xorOp => left.eval file ^^ right.eval file

/-! ### Linearisation -/

structure LinearizedExpression where
  tokens : List UInt8
  ints : List UInt32
  strings : List (List UInt8)
  deriving DecidableEq, Repr

namespace LinearizedExpression

def empty : LinearizedExpression := ⟨[], [], []⟩

def pushToken (tok : Token) (e : LinearizedExpression) : LinearizedExpression :=
  { e with tokens := e.tokens ++ [tok.code] }

def pushInts (values : List UInt32) (e : LinearizedExpression) : LinearizedExpression :=
  { e with ints := e.ints ++ values }

def pushStrings (values : List (List UInt8)) (e : LinearizedExpression) : LinearizedExpression :=
  { e with strings := e.strings ++ values }

end LinearizedExpression

def RelExpression.linearize (rel : RelExpression) (e : LinearizedExpression) :
    LinearizedExpression :=
  e.pushInts [rel.op.code, rel.lowerValue.toUInt32, rel.higherValue.toUInt32]

def StringExpression.linearize (str : StringExpression) (e : LinearizedExpression) :
    LinearizedExpression :=
  (e.pushInts [str.op.code, if str.ignoreCase then 1 else 0, UInt32.ofNat str.terms.length])
    |>.pushStrings str.terms

/-- A null pointer cannot be linearised. -/
def Expression.linearize : Expression → LinearizedExpression → Option LinearizedExpression
  | null, _ => none
  | date rel, e => some (rel.linearize (e.pushToken .date))
  | pop rel, e => some (rel.linearize (e.pushToken .pop))
  | size rel, e => some (rel.linearize (e.pushToken .size))
  | sizeMB rel, e => some (rel.linearize (e.pushToken .sizeMB))
  | hash op terms, e => some (StringExpression.linearize ⟨op, terms, true⟩ (e.pushToken .hash))
  | name str, e => some (str.linearize (e.pushToken .name))
  | path str, e => some (str.linearize (e.pushToken .path))
  | ext str, e => some (str.linearize (e.pushToken .ext))
  | compound op left right, e =>
      (left.linearize ((e.pushToken .comp).pushInts [op.code])).bind right.linearize

/-! ### Rebuilding -/

/-- The three indices, which are `int`. -/
structure Cursor where
  tok : Nat
  ints : Nat
  strings : Nat
  deriving DecidableEq, Repr

/-- `v[n++]`, which has no outcome behind the end of the vector or when the index overflows. -/
def fetch {α : Type} (values : List α) (n : Nat) : Option (α × Nat) :=
  if n + 1 < 2 ^ 31 then values[n]?.map fun value => (value, n + 1) else none

/-- `count` elements one after the other. -/
def fetchMany {α : Type} (values : List α) : Nat → Nat → Option (List α × Nat)
  | 0, n => some ([], n)
  | count + 1, n => do
      let (value, n) ← fetch values n
      let (rest, n) ← fetchMany values count n
      return (value :: rest, n)

namespace LinearizedExpression

def readRelExpr (e : LinearizedExpression) (cur : Cursor) : Option (RelExpression × Cursor) := do
  let (op, n) ← fetch e.ints cur.ints
  let (lv, n) ← fetch e.ints n
  let (hv, n) ← fetch e.ints n
  let op ← RelOperator.ofCode? op
  return (⟨op, lv.toInt32, hv.toInt32⟩, { cur with ints := n })

/-- The number of strings is an `int`; a negative one reads none. -/
def readStringExpr (e : LinearizedExpression) (cur : Cursor) :
    Option (StringExpression × Cursor) := do
  let (op, n) ← fetch e.ints cur.ints
  let op ← StringOperator.ofCode? op
  let (b, n) ← fetch e.ints n
  let (count, n) ← fetch e.ints n
  let (strings, m) ← fetchMany e.strings count.toInt32.toInt.toNat cur.strings
  return (⟨op, strings, b != 0⟩, { cur with ints := n, strings := m })

/-- One level of the recursion is spent for each token that is read. -/
def toExprFrom (e : LinearizedExpression) : Nat → Cursor → Option (Expression × Cursor)
  | 0, _ => none
  | fuel + 1, cur => do
      let (code, n) ← fetch e.tokens cur.tok
      let cur := { cur with tok := n }
      match Token.ofCode? code with
      | none => return (.null, cur)
      | some .date => (e.readRelExpr cur).map fun (rel, cur) => (.date rel, cur)
      | some .pop => (e.readRelExpr cur).map fun (rel, cur) => (.pop rel, cur)
      | some .size => (e.readRelExpr cur).map fun (rel, cur) => (.size rel, cur)
      | some .hash => (e.readStringExpr cur).map fun (str, cur) => (.hash str.op str.terms, cur)
      | some .name => (e.readStringExpr cur).map fun (str, cur) => (.name str, cur)
      | some .path => (e.readStringExpr cur).map fun (str, cur) => (.ext str, cur)
      | some .ext => (e.readStringExpr cur).map fun (str, cur) => (.ext str, cur)
      | some .comp =>
          let (op, n) ← fetch e.ints cur.ints
          let op ← LogicalOperator.ofCode? op
          let (e1, cur) ← e.toExprFrom fuel { cur with ints := n }
          let (e2, cur) ← e.toExprFrom fuel cur
          return (.compound op e1 e2, cur)
      | some .sizeMB => (e.readRelExpr cur).map fun (rel, cur) => (.sizeMB rel, cur)

def toExpr (e : LinearizedExpression) : Option Expression :=
  (e.toExprFrom (e.tokens.length + 1) ⟨0, 0, 0⟩).map Prod.fst

end LinearizedExpression

end RetroShare.RegularExpression
