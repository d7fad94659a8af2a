import RetroShare.Foundation.OrderedMap
import RetroShare.Foundation.Search
import RetroShare.Foundation.Word

/-!
# URLs

`RsUrl` as it is printed and parsed. Strings are lists of bytes, and a position that is not found is
`none` where the code has `npos`, the greatest number there is.
-/

namespace RetroShare

abbrev Str := List UInt8

/-- The bytes of an ASCII text. -/
def ascii (text : String) : Str := text.toList.map Char.toUInt8

/-- `mPort` counts only where `mHasPort` is set, and is zero elsewhere. -/
structure RsUrl where
  scheme : Str
  host : Str
  port : Option UInt16
  path : Str
  query : OrderedMap Str Str
  fragment : Str

namespace RsUrl

open Search

/-! ### Characters -/

def schemeSeparator : Str := ascii "://"
def ipv6WrapOpen : UInt8 := '['.toUInt8
def ipv6Separator : UInt8 := ':'.toUInt8
def ipv6WrapClose : UInt8 := ']'.toUInt8
def portSeparator : UInt8 := ':'.toUInt8
def pathSeparator : UInt8 := '/'.toUInt8
def querySeparator : UInt8 := '?'.toUInt8
def queryAssign : UInt8 := '='.toUInt8
def queryFieldSep : UInt8 := '&'.toUInt8
def fragmentSeparator : UInt8 := '#'.toUInt8
def percent : UInt8 := '%'.toUInt8

def isDigit (c : UInt8) : Bool := '0'.toUInt8 ≤ c && c ≤ '9'.toUInt8

def isAlnum (c : UInt8) : Bool :=
  isDigit c || ('A'.toUInt8 ≤ c && c ≤ 'Z'.toUInt8) || ('a'.toUInt8 ≤ c && c ≤ 'z'.toUInt8)

def isSpace (c : UInt8) : Bool := c = ' '.toUInt8 || (9 ≤ c && c ≤ 13)

/-- The value of a hexadecimal digit. -/
def hexValue (c : UInt8) : Option Nat :=
  if isDigit c then some (c.toNat - 48)
  else if 'A'.toUInt8 ≤ c ∧ c ≤ 'F'.toUInt8 then some (c.toNat - 55)
  else if 'a'.toUInt8 ≤ c ∧ c ≤ 'f'.toUInt8 then some (c.toNat - 87)
  else none

def hexDigit (n : Nat) : UInt8 := UInt8.ofNat (if n < 10 then 48 + n else 55 + n)

/-- Decimal digits, as `std::to_string` and `%u` print them. -/
def decimal (n : Nat) : Str :=
  if n = 0 then ascii "0" else (Nat.digits 10 n).reverse.map fun digit => UInt8.ofNat (48 + digit)

/-- The number that decimal digits stand for. -/
def ofDecimal (digits : Str) : Nat :=
  Nat.ofDigits 10 (digits.reverse.map fun c => c.toNat - 48)

/-! ### Percent encoding -/

/-- Characters that are kept intact. -/
def isUnreserved (c : UInt8) : Bool :=
  isAlnum c || c = '-'.toUInt8 || c = '_'.toUInt8 || c = '.'.toUInt8 || c = '~'.toUInt8

def urlEncode (str : Str) (ignoreChars : Str) : Str :=
  str.flatMap fun c =>
    if isUnreserved c || ignoreChars.contains c then [c]
    else [percent, hexDigit (c.toNat / 16), hexDigit (c.toNat % 16)]

/-- `stoi` at base 16, where there are at most two characters; `none` when it throws. -/
def stoi16 (str : Str) : Option Int :=
  let str := str.dropWhile isSpace
  let negative := str.head? = some '-'.toUInt8
  let str := if negative || str.head? = some '+'.toUInt8 then str.tail else str
  let digits := (str.map hexValue).takeWhile Option.isSome
  if digits = [] then none
  else
    let value : Int := digits.foldl (fun (value : Int) digit => 16 * value + digit.getD 0) 0
    some (if negative then -value else value)

def decodeFrom : Str → Option Str
  | c :: high :: low :: str =>
      if c = percent then do
        let code ← stoi16 [high, low]
        let decoded ← decodeFrom str
        return UInt8.ofInt code :: decoded
      else do
        let decoded ← decodeFrom (high :: low :: str)
        return c :: decoded
  | str => some str

/-- For a string of one character the boundary that is to come after it wraps around. -/
def urlDecode (str : Str) : Option Str :=
  if str = [percent] then stoi16 [] >>= fun _ => some [] else decodeFrom str

/-! ### Printing -/

def wrapHost (host : Str) : Str :=
  if ipv6Separator ∈ host ∧ host.head? ≠ some ipv6WrapOpen then
    [ipv6WrapOpen] ++ host ++ [ipv6WrapClose]
  else host

def portText (port : Option UInt16) : Str :=
  match port with
  | some port => portSeparator :: decimal port.toNat
  | none => []

def queryField (field : Str × Str) : Str :=
  field.1 ++ [queryAssign] ++ urlEncode field.2 [] ++ [queryFieldSep]

def queryText (query : OrderedMap Str Str) : Str :=
  if query.isEmpty then [] else querySeparator :: (query.toList.flatMap queryField).dropLast

def fragmentText (fragment : Str) : Str :=
  if fragment = [] then [] else fragmentSeparator :: urlEncode fragment []

def toString (url : RsUrl) : Str :=
  url.scheme ++ (schemeSeparator ++ (wrapHost url.host ++ (portText url.port ++
    (urlEncode url.path [pathSeparator] ++ (queryText url.query ++ fragmentText url.fragment)))))

/-! ### Parsing -/

/-- `sscanf` with `":%hu"`. -/
def scanPort (str : Str) : Option UInt16 :=
  if str.head? = some portSeparator then
    let str := str.tail.dropWhile isSpace
    let negative := str.head? = some '-'.toUInt8
    let str := if negative || str.head? = some '+'.toUInt8 then str.tail else str
    let digits := str.takeWhile isDigit
    if digits = [] then none
    else
      let value := ofDecimal digits
      -- out of range of `unsigned long`
      if 2 ^ 64 ≤ value then some 65535
      else some (if negative then -UInt16.ofNat value else UInt16.ofNat value)
  else none

section Parsing

variable (urlStr : Str) (endI : Nat) (hostBeginI : Nat)

def parseFragment (url : RsUrl) : Option RsUrl :=
  match find urlStr fragmentSeparator hostBeginI with
  | none => some url
  | some fragmentBeginI =>
      if endI ≤ fragmentBeginI then some url
      else do
        let fragment ← urlDecode (urlStr.drop (fragmentBeginI + 1))
        return { url with fragment := fragment }

/-- The loop over the fields. `assPos` is the place of an assignment sign. -/
def parseFields (qStr : Str) (kPos assPos : Nat) (query : OrderedMap Str Str) :
    Option (OrderedMap Str Str) := do
  let vEndPos := find qStr queryFieldSep assPos
  let value ← urlDecode (between qStr (assPos + 1) vEndPos)
  let query := query.insertIfNew (between qStr kPos (some assPos)) value
  match _hend : vEndPos with
  | none => return query
  | some vEnd =>
      match hnext : find qStr queryAssign vEnd with
      | none => return query
      | some next =>
          if next < endI then parseFields qStr (vEnd + 1) next query else return query
termination_by qStr.length - assPos
decreasing_by
  have hlt := find_lt hnext
  have hge := find_ge hnext
  have hge' := find_ge _hend
  have hne : next ≠ vEnd := by
    intro heq
    have hsep := getElem?_of_find _hend
    rw [← heq, getElem?_of_find hnext] at hsep
    cases hsep
  omega

/-- Without an assignment sign the whole text is the key and the value. -/
def parseFieldsOf (qStr : Str) (query : OrderedMap Str Str) : Option (OrderedMap Str Str) :=
  match find qStr queryAssign 0 with
  | some assPos => parseFields endI qStr 0 assPos query
  | none => do
      let value ← urlDecode qStr
      return query.insertIfNew qStr value

def parseQuery (url : RsUrl) : Option RsUrl :=
  match find urlStr querySeparator hostBeginI with
  | none => parseFragment urlStr endI hostBeginI url
  | some queryBeginI =>
      if endI ≤ queryBeginI then parseFragment urlStr endI hostBeginI url
      else do
        let queryEndI := find urlStr fragmentSeparator hostBeginI
        -- when the fragment comes first, the length wraps around
        let qStr := between urlStr (queryBeginI + 1) (queryEndI.filter (queryBeginI < ·))
        let query ← parseFieldsOf endI qStr url.query
        let url := { url with query := query }
        if queryEndI.all (endI ≤ ·) then return url else parseFragment urlStr endI hostBeginI url

def parsePath (url : RsUrl) : Option RsUrl :=
  match find urlStr pathSeparator hostBeginI with
  | none => parseQuery urlStr endI hostBeginI url
  | some pathBeginI =>
      if endI ≤ pathBeginI then parseQuery urlStr endI hostBeginI url
      else do
        let pathEndI := earlier (find urlStr querySeparator pathBeginI)
          (find urlStr fragmentSeparator pathBeginI)
        let path ← urlDecode (between urlStr pathBeginI pathEndI)
        let url := { url with path := path }
        if pathEndI.all (endI ≤ ·) then return url else parseQuery urlStr endI hostBeginI url

def parsePort (hostEndI : Option Nat) (url : RsUrl) : Option RsUrl :=
  match hostEndI with
  | none => some url
  | some hostEndI =>
      if endI ≤ hostEndI then some url
      else parsePath urlStr endI hostBeginI { url with port := scanPort (urlStr.drop hostEndI) }

/-- Where the host ends if there are no brackets around it. -/
def findHostEnd : Option Nat :=
  earlier (earlier (earlier (find urlStr pathSeparator hostBeginI)
    (find urlStr portSeparator hostBeginI)) (find urlStr querySeparator hostBeginI))
    (find urlStr fragmentSeparator hostBeginI)

def parseHost (url : RsUrl) : Option RsUrl :=
  if endI ≤ hostBeginI then some url
  else if urlStr[hostBeginI]? = some ipv6WrapOpen then
    let hostBeginI := hostBeginI + 1
    if endI ≤ hostBeginI then some url
    else
      match find urlStr ipv6WrapClose hostBeginI with
      | some hostEndI =>
          -- the length is one less than what the brackets enclose, and wraps around from zero
          let host := between urlStr hostBeginI
            (if hostEndI = hostBeginI then none else some (hostEndI - 1))
          parsePort urlStr endI hostBeginI (some (hostEndI + 1)) { url with host := host }
      | none =>
          parsePort urlStr endI hostBeginI (some 0) { url with host := urlStr.drop hostBeginI }
  else
    let hostEndI := findHostEnd urlStr hostBeginI
    parsePort urlStr endI hostBeginI hostEndI
      { url with host := between urlStr hostBeginI hostEndI }

end Parsing

def ofScheme (scheme : Str) : RsUrl := ⟨scheme, [], none, [], ∅, []⟩

/-- `none` when the decoder throws. For the empty string the last index wraps around, as `npos` is
not found there. -/
def fromString (urlStr : Str) : Option RsUrl :=
  let endI := urlStr.length - 1
  match findText schemeSeparator urlStr with
  | none => some (ofScheme urlStr)
  | some schemeEndI =>
      if endI ≤ schemeEndI then some (ofScheme urlStr)
      else parseHost urlStr endI (schemeEndI + 3) (ofScheme (urlStr.take schemeEndI))

end RsUrl

end RetroShare
