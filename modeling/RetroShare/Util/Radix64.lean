import RetroShare.Util.RsUrl

/-!
# Radix64
-/

namespace RetroShare.Radix64

def bintoascTable : Str := ascii "ABCDEFGHIJKLMNOPQRSTUVWXYZabcdefghijklmnopqrstuvwxyz0123456789+/"

def bintoasc (n : UInt8) : UInt8 := bintoascTable.getD n.toNat 0

/-- `none` for the entry 255 of the table, an invalid character. -/
def asctobin (c : UInt8) : Option UInt8 := (bintoascTable.idxOf? c).map UInt8.ofNat

def pad : UInt8 := '='.toUInt8

/-- Line ends and blanks, which the decoder goes over. -/
def isBlank (c : UInt8) : Bool :=
  c = '\n'.toUInt8 || c = ' '.toUInt8 || c = '\r'.toUInt8 || c = '\t'.toUInt8

/-- The loop of `decode`, in the middle of a group of four. The padding ends the text: what would
repair quoted-printable text asks whether the padding itself is a hexadecimal digit. -/
def decodeFrom : Nat → UInt8 → Str → List UInt8
  | _, _, [] => []
  | idx, val, c :: text =>
      if isBlank c then decodeFrom idx val text
      else if c = pad then (if idx = 1 then [val] else [])
      else
        match asctobin c with
        | none => decodeFrom idx val text
        | some c =>
            match idx with
            | 0 => decodeFrom 1 (c <<< 2) text
            | 1 => (val ||| ((c >>> 4) &&& 3)) :: decodeFrom 2 ((c <<< 4) &&& 0xf0) text
            | 2 => (val ||| ((c >>> 2) &&& 15)) :: decodeFrom 3 ((c <<< 6) &&& 0xc0) text
            | _ => (val ||| (c &&& 0x3f)) :: decodeFrom 0 val text

def decode (buffer : Str) : List UInt8 := decodeFrom 0 0 buffer

/-- The entries of its table that `decode` reads. The characters are signed, and so are the indices. -/
def tableIndices : Str → List Int
  | [] => []
  | c :: text =>
      if isBlank c then tableIndices text
      else if c = pad then []
      else c.toInt8.toInt :: tableIndices text

/-! The six bits of each character of a group. -/

def sextet1 (a : UInt8) : UInt8 := (a >>> 2) &&& (0o77 : UInt8)

def sextet2 (a b : UInt8) : UInt8 :=
  (((a <<< 4) &&& (0o60 : UInt8)) ||| ((b >>> 4) &&& (0o17 : UInt8))) &&& (0o77 : UInt8)

def sextet3 (b c : UInt8) : UInt8 :=
  (((b <<< 2) &&& (0o74 : UInt8)) ||| ((c >>> 6) &&& (0o3 : UInt8))) &&& (0o77 : UInt8)

def sextet4 (c : UInt8) : UInt8 := c &&& (0o77 : UInt8)

def encodeBytes : List UInt8 → Str
  | a :: b :: c :: data =>
      bintoasc (sextet1 a) :: bintoasc (sextet2 a b) :: bintoasc (sextet3 b c) ::
        bintoasc (sextet4 c) :: encodeBytes data
  | [a, b] =>
      [bintoasc (sextet1 a), bintoasc (sextet2 a b), bintoasc ((b <<< 2) &&& (0o74 : UInt8)), pad]
  | [a] => [bintoasc (sextet1 a), bintoasc ((a <<< 4) &&& (0o60 : UInt8)), pad, pad]
  | [] => []

/-- The size of the buffer is an `int`; where it does not fit there is no buffer. -/
def encode (data : List UInt8) : Option Str :=
  if (data.length + 2) / 3 * 4 + 1 < 2 ^ 31 then some (encodeBytes data) else none

end RetroShare.Radix64
