import RetroShare.Foundation.Word

/-!
# Sizes and checksums of PGP data

`PGPKeyParser` codes the size of a section in one, two or five bytes. A reader that goes past the
end of its buffer has no defined outcome, so that it stops there.
-/

namespace RetroShare.Pgp

/-- Why a parser does not go on: it reads outside its buffer, an exception is thrown, or it refuses
the input with a code. -/
inductive Stop (Code : Type)
  | outside
  | thrown
  | rejected (code : Code)
  deriving DecidableEq

variable {Code : Type}

/-- Read the byte at the pointer and move on. -/
def readByte : List UInt8 → Except (Stop Code) (UInt8 × List UInt8)
  | [] => throw .outside
  | byte :: data => return (byte, data)

/-- `write_125Size`, where the size is 32 bits wide. -/
def write125Size (size : Nat) : List UInt8 :=
  let size := Word.wrap 32 size
  if size < 192 then [UInt8.ofNat size]
  else if size < 8384 then
    [UInt8.ofNat ((size - 192 - (size - 192) % 256) / 256 + 192), UInt8.ofNat (size - 192)]
  else
    [0xff, UInt8.ofNat (size / 2 ^ 24), UInt8.ofNat (size / 2 ^ 16), UInt8.ofNat (size / 2 ^ 8),
      UInt8.ofNat size]

/-- `read_125Size`; the second byte is read before the first one is refused. -/
def read125Size (data : List UInt8) : Except (Stop Code) (Nat × List UInt8) := do
  let (b1, data) ← readByte data
  if b1 < 192 then return (b1.toNat, data)
  else do
    let (b2, data) ← readByte data
    if b1 < 224 then return ((b1.toNat - 192) * 2 ^ 8 + b2.toNat + 192, data)
    else if b1 ≠ 0xff then throw .thrown
    else do
      let (b3, data) ← readByte data
      let (b4, data) ← readByte data
      let (b5, data) ← readByte data
      return (b2.toNat * 2 ^ 24 + b3.toNat * 2 ^ 16 + b4.toNat * 2 ^ 8 + b5.toNat, data)

/-! ### The checksum -/

def crc24Init : UInt64 := 0xB704CE

def crc24Poly : UInt64 := 0x1864CFB

/-- One bit of the inner loop; `crc` is 64 bits wide and is not cut down to 24 before the end. -/
def crc24Bit (crc : UInt64) : UInt64 :=
  let crc := crc <<< 1
  if crc &&& 0x1000000 ≠ 0 then crc ^^^ crc24Poly else crc

def crc24Byte (crc : UInt64) (octet : UInt8) : UInt64 :=
  Nat.repeat crc24Bit 8 (crc ^^^ (octet.toUInt64 <<< 16))

/-- `compute24bitsCRC` -/
def compute24bitsCRC (octets : List UInt8) : Nat :=
  (octets.foldl crc24Byte crc24Init &&& 0xFFFFFF).toNat

end RetroShare.Pgp
