import RetroShare.Pgp.PgpKeyUtil
import RetroShare.Util.Radix64
import RetroShare.Util.RsUrl

/-!
# Certificates

A certificate is a list of sections, each with a tag and a size, written as Radix64 text. The last
section holds a checksum of all the bytes before it.
-/

namespace RetroShare.Pgp

def certificateVersion06 : UInt8 := 0x06

inductive CertificatePtag
  | pgpSection
  | extIpAndPortSection
  | locIpAndPortSection
  | dnsSection
  | sslIdSection
  | nameSection
  | checksumSection
  | hiddenNodeSection
  | versionSection
  | extraLocator
  deriving DecidableEq

def CertificatePtag.code : CertificatePtag → UInt8
  | pgpSection => 0x01
  | extIpAndPortSection => 0x02
  | locIpAndPortSection => 0x03
  | dnsSection => 0x04
  | sslIdSection => 0x05
  | nameSection => 0x06
  | checksumSection => 0x07
  | hiddenNodeSection => 0x08
  | versionSection => 0x09
  | extraLocator => 10

def CertificatePtag.ofCode? (ptag : UInt8) : Option CertificatePtag :=
  [pgpSection, extIpAndPortSection, locIpAndPortSection, dnsSection, sslIdSection, nameSection,
    checksumSection, hiddenNodeSection, versionSection, extraLocator].find? (·.code = ptag)

theorem CertificatePtag.ofCode?_code (tag : CertificatePtag) : ofCode? tag.code = some tag := by
  cases tag <;> rfl

/-- `CERTIFICATE_PARSING_ERROR_*` -/
inductive ParsingError
  | noError
  | sizeError
  | invalidLocationId
  | invalidExternalIp
  | invalidLocalIp
  | invalidChecksumSection
  | checksumError
  | missingChecksum
  | wrongVersion
  deriving DecidableEq

/-- `binary_pgp_key` is `none` while it is a null pointer; a set of URLs is ordered by their
text. -/
structure RsCertificate where
  externalIpAndPort : List UInt8
  internalIpAndPort : List UInt8
  pgpKey : Option (List UInt8)
  locationName : Str
  locationId : List UInt8
  dnsName : Str
  hiddenNodeAddress : Str
  locators : OrderedMap Str RsUrl
  onlyPgp : Bool
  hiddenNode : Bool

/-- Members that the constructor from a text leaves as it finds them in memory. -/
structure Uninitialised where
  externalIpAndPort : Vector UInt8 6
  internalIpAndPort : Vector UInt8 6
  hiddenNode : Bool

def insertLocator (locators : OrderedMap Str RsUrl) (url : RsUrl) : OrderedMap Str RsUrl :=
  locators.insertIfNew url.toString url

def nullId : List UInt8 := List.replicate 16 0

/-! ### Parsing -/

def isBlank (c : UInt8) : Bool := c = ' '.toUInt8 || c = '\t'.toUInt8 || c = '\n'.toUInt8

def isAcceptableRadix64Char (c : UInt8) : Bool :=
  RsUrl.isAlnum c || c = '+'.toUInt8 || c = '/'.toUInt8 || c = '='.toUInt8

structure ParserState where
  cert : RsCertificate
  checksumCheckPassed : Bool
  certificateVersion : UInt8

abbrev Parser := Except (Stop ParsingError)

/-- The first bytes of a section, copied before anybody knows whether they are there. -/
def readBytes (count : Nat) (buf : List UInt8) : Parser (List UInt8) :=
  if buf.length < count then throw .outside else return buf.take count

def readChecksum (buf : List UInt8) : Parser Nat := do
  let bytes ← readBytes 3 buf
  return (bytes.getD 0 0).toNat + (bytes.getD 1 0).toNat * 2 ^ 8 + (bytes.getD 2 0).toNat * 2 ^ 16

/-- The `switch` on the tag of a section of size `s`, with `totalS` bytes before its content. -/
def readSection (bf : List UInt8) (ptag : UInt8) (s totalS : Nat) (buf : List UInt8)
    (state : ParserState) : Parser ParserState :=
  let cert := state.cert
  match CertificatePtag.ofCode? ptag with
  | some .versionSection => do
      let (version, _) ← readByte buf
      return { state with certificateVersion := version }
  | some .pgpSection => do
      let key ← readBytes s buf
      return { state with cert := { cert with pgpKey := some key } }
  | some .nameSection => do
      let name ← readBytes s buf
      return { state with cert := { cert with locationName := name } }
  | some .sslIdSection =>
      if s ≠ 16 then throw (.rejected .invalidLocationId)
      else do
        let id ← readBytes 16 buf
        return { state with cert := { cert with locationId := id, onlyPgp := false } }
  | some .dnsSection => do
      let name ← readBytes s buf
      return { state with cert := { cert with dnsName := name } }
  | some .hiddenNodeSection => do
      let address ← readBytes s buf
      return { state with cert := { cert with hiddenNodeAddress := address, hiddenNode := true } }
  | some .locIpAndPortSection =>
      if s ≠ 6 then throw (.rejected .invalidLocalIp)
      else do
        let ipAndPort ← readBytes s buf
        return { state with cert := { cert with internalIpAndPort := ipAndPort } }
  | some .extIpAndPortSection =>
      if s ≠ 6 then throw (.rejected .invalidExternalIp)
      else do
        let ipAndPort ← readBytes s buf
        return { state with cert := { cert with externalIpAndPort := ipAndPort } }
  | some .checksumSection =>
      if s ≠ 3 ∨ totalS + 3 ≠ bf.length then throw (.rejected .invalidChecksumSection)
      else do
        let crc ← readChecksum buf
        if compute24bitsCRC (bf.take (bf.length - 5)) ≠ crc then throw (.rejected .checksumError)
        else return { state with checksumCheckPassed := true }
  | some .extraLocator => do
      let text ← readBytes s buf
      match RsUrl.fromString text with
      | none => throw .thrown
      | some url =>
          return { state with cert := { cert with locators := insertLocator cert.locators url } }
  | none => return state

/-- The loop over the sections. `buf` is what is left of the decoded bytes `bf`. -/
def parseSections (bf : List UInt8) (buf : List UInt8) (totalS : Nat) (state : ParserState) :
    Parser ParserState :=
  if totalS < bf.length then do
    let (ptag, buf) ← readByte buf
    let (s, buf') ← read125Size buf
    let totalS' := totalS + (1 + (buf.length - buf'.length))
    if bf.length < totalS' then throw (.rejected .sizeError)
    else do
      let state ← readSection bf ptag s totalS' buf' state
      parseSections bf (buf'.drop s) (totalS' + s) state
  else return state
termination_by bf.length - totalS

def parseBuffer (bf : List UInt8) (cert : RsCertificate) : Parser RsCertificate := do
  let state ← parseSections bf bf 0 ⟨cert, false, 0⟩
  if !state.checksumCheckPassed then throw (.rejected .missingChecksum)
  else if state.certificateVersion ≠ certificateVersion06 then throw (.rejected .wrongVersion)
  else return state.cert

/-- What `initFromString` comes to: it goes on for ever, it reads outside the decoded bytes, or it
returns. -/
inductive Outcome
  | endless
  | outside
  | returnsFalse (err : ParsingError)
  | returnsTrue (cert : RsCertificate)

/-- The constructor from a text, before any section is read. -/
def RsCertificate.blank (memory : Uninitialised) : RsCertificate :=
  ⟨memory.externalIpAndPort.toList, memory.internalIpAndPort.toList, none, [], nullId, [], [], ∅, true,
    memory.hiddenNode⟩

/-- The loop that takes the blanks out has a counter of 32 bits. A longer text is gone over again
and again, until what is kept exceeds all memory, if anything is kept. -/
def initFromString (memory : Uninitialised) (instr : Str) : Outcome :=
  let seen := instr.take (2 ^ 32)
  if seen.any fun c => !isBlank c && !isAcceptableRadix64Char c then .returnsFalse .noError
  else if 2 ^ 32 ≤ instr.length then
    if seen.all isBlank then .endless else .returnsFalse .sizeError
  else
    match parseBuffer (Radix64.decode (instr.filter fun c => !isBlank c)) (.blank memory) with
    | .error .outside => .outside
    | .error .thrown => .returnsFalse .sizeError
    | .error (.rejected err) => .returnsFalse err
    | .ok cert => .returnsTrue cert

/-! ### Printing -/

/-- What `addPacket` writes to: the bytes up to `offset`, in a buffer that is never too small. -/
structure PacketBuffer where
  bytes : List UInt8
  bufSize : Nat
  fits : bytes.length < bufSize

/-- The buffer is doubled until `needed` is below its size. -/
def grow (needed bufSize : Nat) (hpos : 0 < bufSize) : Nat :=
  if needed < bufSize then bufSize else grow needed (2 * bufSize) (by omega)
termination_by needed + 1 - bufSize

theorem lt_grow (needed bufSize : Nat) (hpos : 0 < bufSize) : needed < grow needed bufSize hpos := by
  induction bufSize, hpos using grow.induct needed with
  | case1 bufSize hpos hlt =>
      rw [grow, if_pos hlt]
      exact hlt
  | case2 bufSize hpos hge ih =>
      rw [grow, if_neg hge]
      exact ih

theorem length_write125Size_le (size : Nat) : (write125Size size).length ≤ 5 := by
  unfold write125Size
  dsimp only
  split
  · exact Nat.le_of_ble_eq_true rfl
  · split <;> exact Nat.le_of_ble_eq_true rfl

/-- A section as it is written. -/
def packet (ptag : CertificatePtag) (mem : List UInt8) : List UInt8 :=
  ptag.code :: (write125Size mem.length ++ mem)

def PacketBuffer.addPacket (buf : PacketBuffer) (ptag : CertificatePtag) (mem : List UInt8) :
    PacketBuffer where
  bytes := buf.bytes ++ packet ptag mem
  bufSize := grow (buf.bytes.length + mem.length + 6) buf.bufSize (Nat.zero_lt_of_lt buf.fits)
  fits := by
    have hcode := length_write125Size_le mem.length
    have hgrow := lt_grow (buf.bytes.length + mem.length + 6) buf.bufSize
      (Nat.zero_lt_of_lt buf.fits)
    simp only [packet, List.length_append, List.length_cons]
    omega

def PacketBuffer.empty : PacketBuffer := ⟨[], 1000, Nat.zero_lt_succ _⟩

/-- Everything but the checksum. -/
def RsCertificate.packets (cert : RsCertificate) : PacketBuffer :=
  let buf := (PacketBuffer.empty.addPacket .versionSection [certificateVersion06]).addPacket
    .pgpSection (cert.pgpKey.getD [])
  if cert.onlyPgp then buf
  else
    let buf :=
      if cert.hiddenNode then buf.addPacket .hiddenNodeSection cert.hiddenNodeAddress
      else
        ((buf.addPacket .extIpAndPortSection cert.externalIpAndPort).addPacket
          .locIpAndPortSection cert.internalIpAndPort).addPacket .dnsSection cert.dnsName
    let buf := (buf.addPacket .nameSection cert.locationName).addPacket .sslIdSection
      cert.locationId
    cert.locators.toList.foldl (fun buf entry => buf.addPacket .extraLocator entry.2.toString) buf

/-- The three low bytes of the checksum, the lowest first. -/
def crcBytes (crc : Nat) : List UInt8 :=
  [UInt8.ofNat crc, UInt8.ofNat (crc / 2 ^ 8), UInt8.ofNat (crc / 2 ^ 16)]

/-- A line end after every 64 characters. -/
def sliceFrom : Nat → Str → Str
  | _, [] => []
  | i, c :: text =>
      if i % 64 = 63 then c :: '\n'.toUInt8 :: sliceFrom (i + 1) text
      else c :: sliceFrom (i + 1) text

/-- `none` where the text is too long for an `int`. -/
def RsCertificate.toStdString (cert : RsCertificate) : Option Str :=
  let buf := cert.packets
  let buf := buf.addPacket .checksumSection (crcBytes (compute24bitsCRC buf.bytes))
  (Radix64.encode buf.bytes).map (sliceFrom 0)

/-- `cleanCertificate`; `none` if it does not return true. The loop that makes the lines has a
signed counter. -/
def cleanCertificate (instr : Str) : Option Str :=
  if (instr.take (2 ^ 32)).any fun c => !isBlank c && !isAcceptableRadix64Char c then none
  else if 2 ^ 32 ≤ instr.length then none
  else
    let str := instr.filter fun c => !isBlank c
    some (if str.length < 2 ^ 31 then sliceFrom 0 str else [])

/-! ### Certificates of peers -/

/-- The fields of `RsPeerDetails` that a certificate is made of. -/
structure RsPeerDetails where
  isOnlyGPGdetail : Bool
  id : Vector UInt8 16
  location : Str
  isHiddenNode : Bool
  hiddenNodeAddress : Str
  hiddenNodePort : UInt16
  localAddr : Str
  localPort : UInt16
  extAddr : Str
  extPort : UInt16
  dyndns : Str
  ipAddressList : List Str

/-- `%d` of `sscanf`, of which one byte is kept. -/
def scanByte (str : Str) : Option (UInt8 × Str) :=
  let str := str.dropWhile RsUrl.isSpace
  let negative := str.head? = some '-'.toUInt8
  let str := if negative || str.head? = some '+'.toUInt8 then str.tail else str
  let digits := str.takeWhile RsUrl.isDigit
  if digits = [] then none
  else
    let value := RsUrl.ofDecimal digits
    -- a number out of the range of `long` is cut off
    let byte : UInt8 :=
      if negative then (if 2 ^ 63 ≤ value then 0 else -UInt8.ofNat value)
      else if 2 ^ 63 ≤ value then 255 else UInt8.ofNat value
    some (byte, str.drop digits.length)

def scanDot (str : Str) : Option Str :=
  if str.head? = some '.'.toUInt8 then some str.tail else none

/-- `none` when it throws. -/
def scanIp (ipString : Str) (port : UInt16) : Option (List UInt8) := do
  let (d0, str) ← scanByte ipString
  let (d1, str) ← scanByte (← scanDot str)
  let (d2, str) ← scanByte (← scanDot str)
  let (d3, _) ← scanByte (← scanDot str)
  return [d0, d1, d2, d3, (port >>> 8).toUInt8, port.toUInt8]

def noAddress : List UInt8 := List.replicate 6 0

/-- Up to the first blank. -/
def locatorText (ipr : Str) : Str := ipr.takeWhile (· ≠ ' '.toUInt8)

/-- The constructor from the details of a peer; `none` when it throws. -/
def RsCertificate.ofDetails (detail : RsPeerDetails) (pgpBlock : List UInt8) :
    Option RsCertificate :=
  if pgpBlock = [] then none
  else if detail.isOnlyGPGdetail then
    some ⟨noAddress, noAddress, some pgpBlock, [], nullId, [], [], ∅, true, false⟩
  else if detail.isHiddenNode then
    some ⟨noAddress, noAddress, some pgpBlock, detail.location, detail.id.toList, [],
      detail.hiddenNodeAddress ++ ascii ":" ++ RsUrl.decimal detail.hiddenNodePort.toNat, ∅, false,
      true⟩
  else do
    let locators ← detail.ipAddressList.foldlM (fun locators ipr => do
      let url ← RsUrl.fromString (locatorText ipr)
      return insertLocator locators url) ∅
    return ⟨(scanIp detail.extAddr detail.extPort).getD noAddress,
      (scanIp detail.localAddr detail.localPort).getD noAddress, some pgpBlock, detail.location,
      detail.id.toList, detail.dyndns, [], locators, false, false⟩

end RetroShare.Pgp
