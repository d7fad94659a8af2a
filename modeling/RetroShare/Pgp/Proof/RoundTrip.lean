import RetroShare.Pgp.Proof.AnyText
import RetroShare.Util.Proof.Radix64
import RetroShare.Util.Proof.UrlCoding

/-!
# Printing and parsing a certificate

A certificate is printed as packed sections behind one another, and the loop of the parser takes in
one after the other. What a text leaves out stays as it was in memory: the two addresses are only
there for a certificate that is neither that of a hidden node nor of a key alone.
-/

namespace RetroShare.Pgp

/-! ### Packed sections -/

/-- What is written is a code of the size. -/
theorem sizeCode_write125Size {size : Nat} (hsize : size < 2 ^ 32) :
    SizeCode (write125Size size) size := by
  have hwrap : Word.wrap 32 size = size := Word.wrap_of_lt hsize
  unfold write125Size
  rw [hwrap]
  dsimp only
  split
  · next hone =>
      have hvalue : (UInt8.ofNat size).toNat = size := Nat.mod_eq_of_lt (by omega)
      have hcode := SizeCode.one (UInt8.ofNat size) (by rw [UInt8.lt_iff_toNat_lt, hvalue]; exact hone)
      rwa [hvalue] at hcode
  · next hone =>
      split
      · next htwo =>
          generalize hfirst : (size - 192 - (size - 192) % 256) / 256 + 192 = first
          have hvalue : (UInt8.ofNat first).toNat = first := Nat.mod_eq_of_lt (by omega)
          have hvalue' : (UInt8.ofNat (size - 192)).toNat = (size - 192) % 256 := rfl
          have hcode := SizeCode.two (UInt8.ofNat first) (UInt8.ofNat (size - 192))
            (by rw [UInt8.lt_iff_toNat_lt, hvalue]; change ¬first < 192; omega)
            (by rw [UInt8.lt_iff_toNat_lt, hvalue]; change first < 224; omega)
          have hsum : (first - 192) * 2 ^ 8 + (size - 192) % 256 + 192 = size := by omega
          rwa [hvalue, hvalue', hsum] at hcode
      · have hcode := SizeCode.five (UInt8.ofNat (size / 2 ^ 24)) (UInt8.ofNat (size / 2 ^ 16))
          (UInt8.ofNat (size / 2 ^ 8)) (UInt8.ofNat size)
        have hbyte : ∀ n, (UInt8.ofNat n).toNat = n % 256 := fun _ => rfl
        have hsum : size / 2 ^ 24 % 256 * 2 ^ 24 + size / 2 ^ 16 % 256 * 2 ^ 16 +
            size / 2 ^ 8 % 256 * 2 ^ 8 + size % 256 = size := by omega
        rwa [hbyte, hbyte, hbyte, hbyte, hsum] at hcode

/-- What a section that is all there makes of the state. -/
def absorb (ptag : CertificatePtag) (body : List UInt8) (state : ParserState) :
    Option ParserState :=
  let cert := state.cert
  match ptag with
  | .versionSection => some { state with certificateVersion := body.headD 0 }
  | .pgpSection => some { state with cert := { cert with pgpKey := some body } }
  | .nameSection => some { state with cert := { cert with locationName := body } }
  | .sslIdSection =>
      some { state with cert := { cert with locationId := body, onlyPgp := false } }
  | .dnsSection => some { state with cert := { cert with dnsName := body } }
  | .hiddenNodeSection =>
      some { state with cert := { cert with hiddenNodeAddress := body, hiddenNode := true } }
  | .locIpAndPortSection => some { state with cert := { cert with internalIpAndPort := body } }
  | .extIpAndPortSection => some { state with cert := { cert with externalIpAndPort := body } }
  | .checksumSection => none
  | .extraLocator =>
      (RsUrl.fromString body).map fun url =>
        { state with cert := { cert with locators := insertLocator cert.locators url } }

/-- The content has the size that the parser wants under that tag, which is not the checksum. -/
def Fitting (ptag : CertificatePtag) (body : List UInt8) : Prop :=
  match ptag with
  | .versionSection => body ≠ []
  | .sslIdSection => body.length = 16
  | .locIpAndPortSection | .extIpAndPortSection => body.length = 6
  | .checksumSection => False
  | .pgpSection | .nameSection | .dnsSection | .hiddenNodeSection | .extraLocator => True

section Packets

variable {bf : List UInt8} {totalS : Nat} {state : ParserState}

theorem readSection_absorb {ptag : CertificatePtag} {body : List UInt8} (hfit : Fitting ptag body)
    (back : List UInt8) :
    readSection bf ptag.code body.length totalS (body ++ back) state =
      match absorb ptag body state with
      | none => .error .thrown
      | some state' => .ok state' := by
  unfold readSection
  rw [CertificatePtag.ofCode?_code]
  cases ptag with
  | versionSection =>
      cases body with
      | nil => exact absurd rfl hfit
      | cons version body => rfl
  | pgpSection | nameSection | dnsSection | hiddenNodeSection =>
      dsimp only
      rw [readBytes_body]
      rfl
  | sslIdSection =>
      have hlength : body.length = 16 := hfit
      dsimp only
      rw [if_neg (not_not_intro hlength), ← hlength, readBytes_body]
      rfl
  | locIpAndPortSection | extIpAndPortSection =>
      have hlength : body.length = 6 := hfit
      dsimp only
      rw [if_neg (not_not_intro hlength), readBytes_body]
      rfl
  | checksumSection => cases hfit
  | extraLocator =>
      dsimp only [absorb]
      rw [readBytes_body]
      dsimp only [Bind.bind, Except.bind]
      cases RsUrl.fromString body <;> rfl

/-- The sections behind one another. -/
def packed (entries : List (CertificatePtag × List UInt8)) : List UInt8 :=
  entries.flatMap fun entry => packet entry.1 entry.2

def absorbAll : List (CertificatePtag × List UInt8) → ParserState → Option ParserState
  | [], state => some state
  | entry :: entries, state => absorb entry.1 entry.2 state >>= absorbAll entries

theorem absorbAll_append (front back : List (CertificatePtag × List UInt8)) :
    ∀ state, absorbAll (front ++ back) state = absorbAll front state >>= absorbAll back := by
  induction front with
  | nil => exact fun _ => rfl
  | cons entry front ih =>
      intro state
      rw [List.cons_append, absorbAll, absorbAll]
      cases absorb entry.1 entry.2 state with
      | none => rfl
      | some state' => exact ih state'

/-- **The loop takes in packed sections one after the other.** -/
theorem parseSections_packed {rest : List UInt8} (entries : List (CertificatePtag × List UInt8)) :
    ∀ {totalS : Nat} (state : ParserState), (∀ entry ∈ entries, Fitting entry.1 entry.2) →
      (packed entries).length < 2 ^ 32 → totalS + (packed entries ++ rest).length = bf.length →
        parseSections bf (packed entries ++ rest) totalS state =
          match absorbAll entries state with
          | none => .error .thrown
          | some state' => parseSections bf rest (totalS + (packed entries).length) state' := by
  induction entries with
  | nil => exact fun _ _ _ _ => rfl
  | cons entry entries ih =>
      intro totalS state hfit hshort hbuf
      obtain ⟨hfirst, hothers⟩ := List.forall_mem_cons.mp hfit
      have hsplit : packed (entry :: entries) = packet entry.1 entry.2 ++ packed entries := rfl
      have hlength : (packet entry.1 entry.2).length =
          1 + (write125Size entry.2.length).length + entry.2.length := by
        simp only [packet, List.length_cons, List.length_append]
        omega
      rw [hsplit, List.length_append] at hshort
      have hcode : SizeCode (write125Size entry.2.length) entry.2.length :=
        sizeCode_write125Size (by omega)
      have htext : packed (entry :: entries) ++ rest = entry.1.code ::
          (write125Size entry.2.length ++ (entry.2 ++ (packed entries ++ rest))) := by
        simp [hsplit, packet]
      rw [htext] at hbuf ⊢
      rw [parseSections_code hcode hbuf, readSection_absorb hfirst, List.drop_left, absorbAll]
      cases absorb entry.1 entry.2 state with
      | none => rfl
      | some state' =>
          have htotal : totalS + (1 + (write125Size entry.2.length).length) + entry.2.length +
              (packed entries ++ rest).length = bf.length := by
            simp only [List.length_cons, List.length_append] at hbuf ⊢
            omega
          have hrest := ih state' hothers (by omega) htotal
          dsimp only [Bind.bind, Except.bind, Option.bind]
          rw [hrest, hsplit, List.length_append, hlength]
          have hsum : totalS + (1 + (write125Size entry.2.length).length) + entry.2.length +
              (packed entries).length =
                totalS + (1 + (write125Size entry.2.length).length + entry.2.length +
                  (packed entries).length) := by omega
          rw [hsum]

end Packets

/-! ### Locators -/

/-- The set that the texts of locators are read into; `none` if one of them throws. -/
def insertAll : List Str → OrderedMap Str RsUrl → Option (OrderedMap Str RsUrl)
  | [], locators => some locators
  | text :: texts, locators =>
      RsUrl.fromString text >>= fun url => insertAll texts (insertLocator locators url)

theorem mem_insertLocator {locators : OrderedMap Str RsUrl} {url : RsUrl} {key : Str} :
    key ∈ insertLocator locators url ↔ url.toString = key ∨ key ∈ locators := by
  unfold insertLocator
  rw [Std.ExtTreeMap.mem_insertIfNew, compare_eq_iff_eq]

theorem insertAll_isSome (texts : List Str) : ∀ locators,
    (insertAll texts locators).isSome ↔ ∀ text ∈ texts, (RsUrl.fromString text).isSome := by
  induction texts with
  | nil => exact fun _ => iff_of_true rfl nofun
  | cons text texts ih =>
      intro locators
      rw [List.forall_mem_cons, insertAll]
      cases RsUrl.fromString text with
      | none => exact iff_of_false nofun fun hall => nomatch hall.1
      | some url => exact (ih _).trans ⟨fun hrest => ⟨rfl, hrest⟩, And.right⟩

/-- The texts that are in the set afterwards. -/
theorem mem_insertAll {key : Str} (texts : List Str) : ∀ {locators locators'},
    insertAll texts locators = some locators' → (key ∈ locators' ↔ key ∈ locators ∨
      ∃ text ∈ texts, (RsUrl.fromString text).map RsUrl.toString = some key) := by
  induction texts with
  | nil =>
      rintro locators locators' hread
      cases hread
      simp
  | cons text texts ih =>
      intro locators locators' hread
      rw [insertAll] at hread
      cases hurl : RsUrl.fromString text with
      | none =>
          rw [hurl] at hread
          cases hread
      | some url =>
          rw [hurl] at hread
          rw [ih hread, mem_insertLocator, List.exists_mem_cons_iff, hurl, Option.map_some,
            Option.some.injEq, or_assoc, or_left_comm]

theorem absorbAll_locators (texts : List Str) : ∀ state : ParserState,
    absorbAll (texts.map fun text => (.extraLocator, text)) state =
      (insertAll texts state.cert.locators).map fun locators =>
        { state with cert := { state.cert with locators := locators } } := by
  induction texts with
  | nil => exact fun _ => rfl
  | cons text texts ih =>
      intro state
      rw [List.map_cons, absorbAll, insertAll, absorb]
      cases RsUrl.fromString text with
      | none => rfl
      | some url => exact ih _

/-! ### The bytes of a certificate -/

namespace RsCertificate

variable (cert : RsCertificate)

def locatorTexts : List Str := cert.locators.toList.map fun entry => entry.2.toString

/-- The sections before the checksum, but for the locators. -/
def plainEntries : List (CertificatePtag × List UInt8) :=
  (.versionSection, [certificateVersion06]) :: (.pgpSection, cert.pgpKey.getD []) ::
    if cert.onlyPgp then []
    else
      (if cert.hiddenNode then [(.hiddenNodeSection, cert.hiddenNodeAddress)]
      else [(.extIpAndPortSection, cert.externalIpAndPort),
        (.locIpAndPortSection, cert.internalIpAndPort), (.dnsSection, cert.dnsName)]) ++
      [(.nameSection, cert.locationName), (.sslIdSection, cert.locationId)]

def entries : List (CertificatePtag × List UInt8) :=
  cert.plainEntries ++
    if cert.onlyPgp then [] else cert.locatorTexts.map fun text => (.extraLocator, text)

end RsCertificate

theorem bytes_foldl_addPacket (locators : List (Str × RsUrl)) : ∀ buf : PacketBuffer,
    (locators.foldl (fun buf entry => buf.addPacket .extraLocator entry.2.toString) buf).bytes =
      buf.bytes ++ packed (locators.map fun entry => (.extraLocator, entry.2.toString)) := by
  induction locators with
  | nil => exact fun buf => (List.append_nil buf.bytes).symm
  | cons entry locators ih =>
      intro buf
      rw [List.foldl_cons, ih]
      simp [PacketBuffer.addPacket, packed]

/-- The buffer holds the packed sections. -/
theorem bytes_packets (cert : RsCertificate) : cert.packets.bytes = packed cert.entries := by
  unfold RsCertificate.packets RsCertificate.entries RsCertificate.plainEntries
  cases cert.onlyPgp with
  | true => simp [PacketBuffer.addPacket, PacketBuffer.empty, packed]
  | false =>
      have htexts : cert.locatorTexts.map (fun text => (CertificatePtag.extraLocator, text)) =
          cert.locators.toList.map fun entry => (.extraLocator, entry.2.toString) := by
        simp [RsCertificate.locatorTexts]
      rw [if_neg Bool.false_ne_true, if_neg Bool.false_ne_true, if_neg Bool.false_ne_true, htexts]
      dsimp only
      rw [bytes_foldl_addPacket]
      cases cert.hiddenNode <;> simp [PacketBuffer.addPacket, PacketBuffer.empty, packed]

/-- All that is written. -/
def RsCertificate.bytes (cert : RsCertificate) : List UInt8 :=
  packed cert.entries ++
    packet .checksumSection (crcBytes (compute24bitsCRC (packed cert.entries)))

theorem compute24bitsCRC_lt (octets : List UInt8) : compute24bitsCRC octets < 2 ^ 24 := by
  unfold compute24bitsCRC
  rw [UInt64.toNat_and]
  exact Nat.lt_of_le_of_lt Nat.and_le_right (by decide)

/-- The checksum that is written matches. -/
theorem checksumMatches_bytes (cert : RsCertificate) :
    ChecksumMatches cert.bytes (crcBytes (compute24bitsCRC (packed cert.entries))) := by
  have hlt := compute24bitsCRC_lt (packed cert.entries)
  have htake : cert.bytes.take (cert.bytes.length - 5) = packed cert.entries := by
    apply List.take_left'
    simp [RsCertificate.bytes, packet, crcBytes, write125Size, Word.wrap]
  refine ⟨rfl, ?_⟩
  rw [htake]
  generalize compute24bitsCRC (packed cert.entries) = crc at hlt
  change crc = crc % 256 + crc / 2 ^ 8 % 256 * 2 ^ 8 + crc / 2 ^ 16 % 256 * 2 ^ 16
  omega

/-! ### The text of a certificate -/

/-- Without any white space. -/
def nonSpace (text : Str) : Str := text.filter fun c => !RsUrl.isSpace c

theorem isSpace_of_isBlank {c : UInt8} (hblank : isBlank c = true) : RsUrl.isSpace c = true := by
  simp only [isBlank, Bool.or_eq_true, decide_eq_true_eq] at hblank
  rcases hblank with (rfl | rfl) | rfl <;> decide

theorem isAcceptableRadix64Char_iff {c : UInt8} : isAcceptableRadix64Char c = true ↔
    (48 ≤ c.toNat ∧ c.toNat ≤ 57) ∨ (65 ≤ c.toNat ∧ c.toNat ≤ 90) ∨
      (97 ≤ c.toNat ∧ c.toNat ≤ 122) ∨ c.toNat = 43 ∨ c.toNat = 47 ∨ c.toNat = 61 := by
  simp only [isAcceptableRadix64Char, Bool.or_eq_true, decide_eq_true_eq, RsUrl.isAlnum_iff,
    ← UInt8.toNat_inj, or_assoc]
  rfl

/-- Characters of the alphabet and the padding are taken, and are no white space. -/
theorem of_isRadix {c : UInt8} (hradix : Radix64.IsRadix c) :
    isAcceptableRadix64Char c = true ∧ RsUrl.isSpace c = false := by
  rcases hradix with hmem | rfl
  · have hcode := Radix64.toNat_of_mem_table hmem
    constructor
    · rw [isAcceptableRadix64Char_iff]
      omega
    · rw [Bool.eq_false_iff, Ne, RsUrl.isSpace_iff]
      omega
  · decide

theorem not_isSpace_of_acceptable {c : UInt8} (hc : isAcceptableRadix64Char c = true) :
    RsUrl.isSpace c = false := by
  rw [isAcceptableRadix64Char_iff] at hc
  rw [Bool.eq_false_iff, Ne, RsUrl.isSpace_iff]
  omega

theorem nonSpace_encodeBytes (data : List UInt8) :
    nonSpace (Radix64.encodeBytes data) = Radix64.encodeBytes data := by
  refine List.filter_eq_self.mpr fun c hc => ?_
  rw [(of_isRadix (Radix64.isRadix_of_mem_encodeBytes hc)).2]
  rfl

/-- Line ends are white space. -/
theorem nonSpace_sliceFrom (text : Str) : ∀ i, nonSpace (sliceFrom i text) = nonSpace text := by
  induction text with
  | nil => exact fun _ => rfl
  | cons c text ih =>
      intro i
      have hend : RsUrl.isSpace '\n'.toUInt8 = true := by decide
      have hrest := ih (i + 1)
      unfold nonSpace at hrest ⊢
      rw [sliceFrom]
      split
      · rw [List.filter_cons, List.filter_cons, hend, hrest, List.filter_cons]
        rfl
      · rw [List.filter_cons, hrest, List.filter_cons]

theorem length_sliceFrom_le (text : Str) : ∀ i, (sliceFrom i text).length ≤ 2 * text.length := by
  induction text with
  | nil => exact fun _ => le_rfl
  | cons c text ih =>
      intro i
      have hrest := ih (i + 1)
      rw [sliceFrom]
      split <;>
      · simp only [List.length_cons]
        omega

/-- The white space has none but blanks, and the counters of the loops get to the end. -/
structure GoodSpaces (spaced : Str) : Prop where
  short : spaced.length < 2 ^ 32
  blanks : ∀ c ∈ spaced, RsUrl.isSpace c = true → isBlank c = true

theorem GoodSpaces.of_wellText {spaced : Str} (hwell : WellText spaced) : GoodSpaces spaced := by
  refine ⟨hwell.1, fun c hc hspace => (hwell.2 c hc).resolve_right fun hacceptable => ?_⟩
  rw [not_isSpace_of_acceptable hacceptable] at hspace
  cases hspace

section Spaced

variable {spaced : Str} {data : List UInt8} (hgood : GoodSpaces spaced)
  (hspaced : nonSpace spaced = Radix64.encodeBytes data)

include hgood

theorem filter_isBlank_of_good : (spaced.filter fun c => !isBlank c) = nonSpace spaced := by
  refine List.filter_congr fun c hc => ?_
  cases hspace : RsUrl.isSpace c with
  | true => rw [hgood.blanks c hc hspace]
  | false =>
      cases hblank : isBlank c with
      | true => rw [isSpace_of_isBlank hblank] at hspace; cases hspace
      | false => rfl

include hspaced

theorem wellText_of_good : WellText spaced := by
  refine ⟨hgood.short, fun c hc => ?_⟩
  cases hspace : RsUrl.isSpace c with
  | true => exact .inl (hgood.blanks c hc hspace)
  | false =>
      have hmem : c ∈ nonSpace spaced := List.mem_filter.mpr ⟨hc, by rw [hspace]; rfl⟩
      rw [hspaced] at hmem
      exact .inr (of_isRadix (Radix64.isRadix_of_mem_encodeBytes hmem)).1

theorem decoded_of_good : decoded spaced = data := by
  unfold decoded
  rw [filter_isBlank_of_good hgood, hspaced, Radix64.decode_encodeBytes]

/-- What is cleaned is the text without the added white space. -/
theorem cleanCertificate_of_good (hsize : (data.length + 2) / 3 * 4 + 1 < 2 ^ 31) :
    cleanCertificate spaced = some (sliceFrom 0 (Radix64.encodeBytes data)) := by
  obtain ⟨hshort, hchars⟩ := wellText_of_good hgood hspaced
  have hlength := Radix64.length_encodeBytes data
  have htake : spaced.take (2 ^ 32) = spaced := List.take_of_length_le (Nat.le_of_lt hshort)
  have hnone : (spaced.any fun c => !isBlank c && !isAcceptableRadix64Char c) = false := by
    rw [List.any_eq_false]
    intro c hc
    rcases hchars c hc with h | h <;> simp [h]
  unfold cleanCertificate
  rw [htake, hnone, if_neg Bool.false_ne_true, if_neg (Nat.not_le.mpr hshort),
    filter_isBlank_of_good hgood, hspaced]
  dsimp only
  rw [if_pos (by omega)]

end Spaced

/-- The text that is printed. -/
theorem toStdString_eq (cert : RsCertificate) :
    cert.toStdString = if (cert.bytes.length + 2) / 3 * 4 + 1 < 2 ^ 31 then
      some (sliceFrom 0 (Radix64.encodeBytes cert.bytes)) else none := by
  have hbytes : (cert.packets.addPacket .checksumSection
      (crcBytes (compute24bitsCRC cert.packets.bytes))).bytes = cert.bytes := by
    simp [PacketBuffer.addPacket, bytes_packets, RsCertificate.bytes]
  unfold RsCertificate.toStdString
  dsimp only
  rw [hbytes, Radix64.encode]
  split <;> rfl

theorem goodSpaces_sliceFrom {data : List UInt8} (hsize : (data.length + 2) / 3 * 4 + 1 < 2 ^ 31) :
    GoodSpaces (sliceFrom 0 (Radix64.encodeBytes data)) := by
  have hlength := Radix64.length_encodeBytes data
  have hle := length_sliceFrom_le (Radix64.encodeBytes data) 0
  refine ⟨by omega, ?_⟩
  have hall : ∀ (text : Str) i, (∀ c ∈ text, RsUrl.isSpace c = false) →
      ∀ c ∈ sliceFrom i text, RsUrl.isSpace c = true → isBlank c = true := by
    intro text
    induction text with
    | nil => exact fun _ _ => nofun
    | cons first text ih =>
        intro i htext c hc hspace
        obtain ⟨hfirst, hothers⟩ := List.forall_mem_cons.mp htext
        have hne : c ≠ first := by
          rintro rfl
          rw [hfirst] at hspace
          cases hspace
        rw [sliceFrom] at hc
        split at hc
        · rcases List.mem_cons.mp hc with heq | hc
          · exact absurd heq hne
          · rcases List.mem_cons.mp hc with rfl | hc
            · decide
            · exact ih _ hothers c hc hspace
        · rcases List.mem_cons.mp hc with heq | hc
          · exact absurd heq hne
          · exact ih _ hothers c hc hspace
  exact hall _ 0 fun c hc => (of_isRadix (Radix64.isRadix_of_mem_encodeBytes hc)).2

/-! ### What the parser makes of it -/

/-- The sections of a certificate have the sizes that the parser wants. -/
theorem fitting_entries {cert : RsCertificate} (hid : cert.locationId.length = 16)
    (hexternal : cert.externalIpAndPort.length = 6)
    (hinternal : cert.internalIpAndPort.length = 6) :
    ∀ entry ∈ cert.entries, Fitting entry.1 entry.2 := by
  intro entry hmem
  rw [RsCertificate.entries, List.mem_append] at hmem
  rcases hmem with hmem | hmem
  · unfold RsCertificate.plainEntries at hmem
    rcases List.mem_cons.mp hmem with rfl | hmem
    · exact List.cons_ne_nil _ _
    rcases List.mem_cons.mp hmem with rfl | hmem
    · trivial
    split at hmem
    · cases hmem
    · rcases List.mem_append.mp hmem with hmem | hmem
      · split at hmem
        · cases List.mem_singleton.mp hmem
          trivial
        · simp only [List.mem_cons, List.not_mem_nil, or_false] at hmem
          rcases hmem with rfl | rfl | rfl
          · exact hexternal
          · exact hinternal
          · trivial
      · simp only [List.mem_cons, List.not_mem_nil, or_false] at hmem
        rcases hmem with rfl | rfl
        · trivial
        · exact hid
  · split at hmem
    · cases hmem
    · obtain ⟨text, _, rfl⟩ := List.mem_map.mp hmem
      trivial

theorem parseBuffer_bytes {cert : RsCertificate} (blank : RsCertificate)
    (hfit : ∀ entry ∈ cert.entries, Fitting entry.1 entry.2)
    (hshort : cert.bytes.length < 2 ^ 32) :
    parseBuffer cert.bytes blank =
      match absorbAll cert.entries ⟨blank, false, 0⟩ with
      | none => .error .thrown
      | some state =>
          if state.certificateVersion ≠ certificateVersion06 then .error (.rejected .wrongVersion)
          else .ok state.cert := by
  have hpacked : (packed cert.entries).length < 2 ^ 32 := by
    rw [RsCertificate.bytes, List.length_append] at hshort
    omega
  have hbuf : 0 + (packed cert.entries ++ packet .checksumSection
      (crcBytes (compute24bitsCRC (packed cert.entries)))).length = cert.bytes.length :=
    Nat.zero_add _
  have hloop := parseSections_packed cert.entries ⟨blank, false, 0⟩ hfit hpacked hbuf
  unfold parseBuffer
  rw [show parseSections cert.bytes cert.bytes 0 ⟨blank, false, 0⟩ = _ from hloop]
  cases absorbAll cert.entries ⟨blank, false, 0⟩ with
  | none => rfl
  | some state =>
      have hmatches := checksumMatches_bytes cert
      have hlast : 0 + (packed cert.entries).length + (1 + ([3] : List UInt8).length) +
          (crcBytes (compute24bitsCRC (packed cert.entries))).length = cert.bytes.length := by
        simp [RsCertificate.bytes, packet, crcBytes, write125Size, Word.wrap]
      have htext : packet .checksumSection (crcBytes (compute24bitsCRC (packed cert.entries))) =
          CertificatePtag.checksumSection.code :: ([3] ++
            crcBytes (compute24bitsCRC (packed cert.entries))) := by
        simp [packet, crcBytes, write125Size, Word.wrap]
      generalize crcBytes (compute24bitsCRC (packed cert.entries)) = crc at hmatches hlast htext
      have hsize : SizeCode [3] crc.length := by
        rw [hmatches.1]
        exact SizeCode.one 3 (by decide)
      have htotal : 0 + (packed cert.entries).length +
          (CertificatePtag.checksumSection.code :: ([3] ++ crc)).length = cert.bytes.length := by
        rw [← hlast, List.length_cons, List.length_append]
        omega
      dsimp only
      rw [htext, parseSections_code hsize htotal,
        readSection_checksum (CertificatePtag.ofCode?_code _) hmatches hlast]
      dsimp only [Bind.bind, Except.bind]
      rw [parseSections_end (Nat.le_of_eq hlast.symm)]
      rfl

/-- What comes back from memory and the sections; the locators are those of the texts. -/
def RsCertificate.restored (cert : RsCertificate) (memory : Uninitialised)
    (locators : OrderedMap Str RsUrl) : RsCertificate :=
  let blank := RsCertificate.blank memory
  let blank := { blank with pgpKey := some (cert.pgpKey.getD []) }
  if cert.onlyPgp then blank
  else
    let blank := { blank with
      locationName := cert.locationName
      locationId := cert.locationId
      locators := locators
      onlyPgp := false }
    if cert.hiddenNode then
      { blank with hiddenNodeAddress := cert.hiddenNodeAddress, hiddenNode := true }
    else
      { blank with
        externalIpAndPort := cert.externalIpAndPort
        internalIpAndPort := cert.internalIpAndPort
        dnsName := cert.dnsName }

theorem absorbAll_entries (cert : RsCertificate) (memory : Uninitialised) :
    absorbAll cert.entries ⟨.blank memory, false, 0⟩ =
      (insertAll (if cert.onlyPgp then [] else cert.locatorTexts) ∅).map fun locators =>
        ⟨cert.restored memory locators, false, certificateVersion06⟩ := by
  unfold RsCertificate.entries RsCertificate.plainEntries RsCertificate.restored
  rw [absorbAll_append]
  cases cert.onlyPgp with
  | true => rfl
  | false =>
      cases cert.hiddenNode <;> exact absorbAll_locators _ _

/-- A text with good white space is read as the certificate that it comes from. -/
theorem initFromString_printed {cert : RsCertificate} (memory : Uninitialised) {spaced : Str}
    (hfit : ∀ entry ∈ cert.entries, Fitting entry.1 entry.2)
    (hsize : (cert.bytes.length + 2) / 3 * 4 + 1 < 2 ^ 31) (hgood : GoodSpaces spaced)
    (hspaced : nonSpace spaced = Radix64.encodeBytes cert.bytes) :
    initFromString memory spaced =
      match insertAll (if cert.onlyPgp then [] else cert.locatorTexts) ∅ with
      | none => .returnsFalse .sizeError
      | some locators => .returnsTrue (cert.restored memory locators) := by
  have hshort : cert.bytes.length < 2 ^ 32 := by omega
  rw [initFromString_wellText memory (wellText_of_good hgood hspaced),
    decoded_of_good hgood hspaced, parseBuffer_bytes _ hfit hshort, absorbAll_entries]
  cases insertAll (if cert.onlyPgp then [] else cert.locatorTexts) ∅ <;> rfl

/-! ### The round trip -/

/-- The members that a certificate is used for are the same. -/
structure SameData (cert cert' : RsCertificate) : Prop where
  pgpKey : cert'.pgpKey = cert.pgpKey
  locationId : cert'.locationId = cert.locationId
  locationName : cert'.locationName = cert.locationName
  dnsName : cert'.dnsName = cert.dnsName
  externalIpAndPort : cert'.externalIpAndPort = cert.externalIpAndPort
  internalIpAndPort : cert'.internalIpAndPort = cert.internalIpAndPort
  hiddenNodeAddress : cert'.hiddenNodeAddress = cert.hiddenNodeAddress
  locators : ∀ text, text ∈ cert'.locators ↔ text ∈ cert.locators

/-- The constructor from that text succeeds with the same data, whatever memory it gets. -/
def Recovered (cert : RsCertificate) (text : Str) : Prop :=
  ∀ memory, ∃ cert', initFromString memory text = .returnsTrue cert' ∧ SameData cert cert'

/-- The certificate comes back from its own text, from that text with added white space, and from
what `cleanCertificate` makes of it. -/
def RoundTrips (cert : RsCertificate) (spaced : Str) : Prop :=
  ∃ text, cert.toStdString = some text ∧ Recovered cert text ∧ Recovered cert spaced ∧
    ∃ cleaned, cleanCertificate spaced = some cleaned ∧ Recovered cert cleaned

/-- The locators, each parsed and printed, are the same set, and none of them makes the parser
throw. -/
def LocatorsSurvive (cert : RsCertificate) : Prop :=
  (∀ text ∈ cert.locatorTexts, (RsUrl.fromString text).isSome) ∧
    ∀ key, key ∈ cert.locators ↔
      ∃ text ∈ cert.locatorTexts, (RsUrl.fromString text).map RsUrl.toString = some key

/-- The text of the certificate fits an `int`, the certificate has addresses, its locators survive,
and the white space that is added is good. -/
structure Survives (detail : RsPeerDetails) (cert : RsCertificate) (spaced : Str) : Prop where
  withAddresses : detail.isOnlyGPGdetail = false ∧ detail.isHiddenNode = false
  size : (cert.bytes.length + 2) / 3 * 4 + 1 < 2 ^ 31
  locators : LocatorsSurvive cert
  spaces : GoodSpaces spaced

/-- A certificate as it is made from the details of a peer. -/
structure Built (detail : RsPeerDetails) (cert : RsCertificate) : Prop where
  pgpKey : some (cert.pgpKey.getD []) = cert.pgpKey
  locationId : cert.locationId.length = 16
  externalIpAndPort : cert.externalIpAndPort.length = 6
  internalIpAndPort : cert.internalIpAndPort.length = 6
  kind : (cert.onlyPgp = false ∧ cert.hiddenNode = false) ↔
    (detail.isOnlyGPGdetail = false ∧ detail.isHiddenNode = false)
  hiddenNodeAddress : cert.onlyPgp = false → cert.hiddenNode = false → cert.hiddenNodeAddress = []

theorem length_scanIp (ipString : Str) (port : UInt16) :
    ((scanIp ipString port).getD noAddress).length = 6 := by
  have hscan : ∀ bytes, scanIp ipString port = some bytes → bytes.length = 6 := by
    intro bytes hbytes
    simp only [scanIp, Option.bind_eq_bind, Option.bind_eq_some_iff, Option.pure_def,
      Option.some.injEq] at hbytes
    obtain ⟨_, _, _, _, _, _, _, _, _, _, _, _, _, _, rfl⟩ := hbytes
    rfl
  cases hbytes : scanIp ipString port with
  | none => rfl
  | some bytes => exact hscan bytes hbytes

theorem built_of_ofDetails {detail : RsPeerDetails} {pgpBlock : List UInt8} {cert : RsCertificate}
    (hcert : RsCertificate.ofDetails detail pgpBlock = some cert) : Built detail cert := by
  unfold RsCertificate.ofDetails at hcert
  split at hcert
  · cases hcert
  split at hcert
  · next honly =>
      cases hcert
      exact ⟨rfl, rfl, rfl, rfl, by simp [honly], nofun⟩
  · next honly =>
      split at hcert
      · next hhidden =>
          cases hcert
          exact ⟨rfl, detail.id.size_toArray, rfl, rfl, by simp [hhidden], fun _ => nofun⟩
      · next hhidden =>
          simp only [Option.bind_eq_bind, Option.bind_eq_some_iff, Option.pure_def,
            Option.some.injEq] at hcert
          obtain ⟨locators, _, rfl⟩ := hcert
          exact ⟨rfl, detail.id.size_toArray, length_scanIp _ _, length_scanIp _ _,
            by simp [Bool.eq_false_iff.mpr honly, Bool.eq_false_iff.mpr hhidden], fun _ _ => rfl⟩

section RoundTrip

variable {detail : RsPeerDetails} {cert : RsCertificate}

/-- Without addresses in the text those of the memory stay. -/
theorem externalIpAndPort_restored (hkind : ¬(cert.onlyPgp = false ∧ cert.hiddenNode = false))
    (memory : Uninitialised) (locators : OrderedMap Str RsUrl) :
    (cert.restored memory locators).externalIpAndPort = memory.externalIpAndPort.toList := by
  unfold RsCertificate.restored
  cases honly : cert.onlyPgp with
  | true => rfl
  | false =>
      cases hhidden : cert.hiddenNode with
      | true => rfl
      | false => exact absurd ⟨honly, hhidden⟩ hkind

theorem sameData_restored (hbuilt : Built detail cert) (locators : OrderedMap Str RsUrl) :
    (∀ memory, SameData cert (cert.restored memory locators)) ↔
      (detail.isOnlyGPGdetail = false ∧ detail.isHiddenNode = false) ∧
        ∀ text, text ∈ locators ↔ text ∈ cert.locators := by
  rw [← hbuilt.kind]
  constructor
  · intro hsame
    have hkind : cert.onlyPgp = false ∧ cert.hiddenNode = false := by
      by_contra hkind
      have hmemory : ∀ byte : UInt8, List.replicate 6 byte = cert.externalIpAndPort := by
        intro byte
        have hexternal :=
          (hsame ⟨.replicate 6 byte, .replicate 6 byte, false⟩).externalIpAndPort
        rwa [externalIpAndPort_restored hkind, Vector.toList_replicate] at hexternal
      have hdiffer : List.replicate 6 (0 : UInt8) = List.replicate 6 1 :=
        (hmemory 0).trans (hmemory 1).symm
      cases hdiffer
    refine ⟨hkind, fun text => ?_⟩
    have hlocators := (hsame ⟨.replicate 6 0, .replicate 6 0, false⟩).locators text
    rwa [RsCertificate.restored, hkind.1, hkind.2] at hlocators
  · rintro ⟨⟨honly, hhidden⟩, hlocators⟩ memory
    have haddress := hbuilt.hiddenNodeAddress honly hhidden
    unfold RsCertificate.restored
    rw [honly, hhidden]
    exact ⟨hbuilt.pgpKey, rfl, rfl, rfl, rfl, rfl, haddress.symm, hlocators⟩

theorem recovered_iff (hbuilt : Built detail cert) {spaced : Str}
    (hsize : (cert.bytes.length + 2) / 3 * 4 + 1 < 2 ^ 31) (hgood : GoodSpaces spaced)
    (hspaced : nonSpace spaced = Radix64.encodeBytes cert.bytes) :
    Recovered cert spaced ↔
      (detail.isOnlyGPGdetail = false ∧ detail.isHiddenNode = false) ∧ LocatorsSurvive cert := by
  have hfit := fitting_entries hbuilt.locationId hbuilt.externalIpAndPort hbuilt.internalIpAndPort
  have hread := fun memory => initFromString_printed memory hfit hsize hgood hspaced
  have hsome := insertAll_isSome (if cert.onlyPgp then [] else cert.locatorTexts) ∅
  have hmem := fun key => @mem_insertAll key (if cert.onlyPgp then [] else cert.locatorTexts) ∅
  have htexts : (detail.isOnlyGPGdetail = false ∧ detail.isHiddenNode = false) →
      (if cert.onlyPgp then [] else cert.locatorTexts) = cert.locatorTexts := by
    intro hkind
    rw [(hbuilt.kind.mpr hkind).1]
    rfl
  unfold Recovered
  generalize (if cert.onlyPgp then [] else cert.locatorTexts) = texts at hread hsome hmem htexts
  cases hlocators : insertAll texts ∅ with
  | none =>
      rw [hlocators] at hread hsome
      refine iff_of_false (fun hrecovered => ?_) fun hsurvive => ?_
      · obtain ⟨cert', hcert', _⟩ := hrecovered ⟨.replicate 6 0, .replicate 6 0, false⟩
        rw [hread] at hcert'
        cases hcert'
      · refine absurd (hsome.mpr ?_) Bool.false_ne_true
        rw [htexts hsurvive.1]
        exact hsurvive.2.1
  | some locators =>
      rw [hlocators] at hread hsome
      have hrestored : (∀ memory, ∃ cert', initFromString memory spaced = .returnsTrue cert' ∧
          SameData cert cert') ↔ ∀ memory, SameData cert (cert.restored memory locators) := by
        refine forall_congr' fun memory => ?_
        rw [hread]
        constructor
        · rintro ⟨cert', hcert', hsame⟩
          cases hcert'
          exact hsame
        · exact fun hsame => ⟨_, rfl, hsame⟩
      rw [hrestored, sameData_restored hbuilt]
      refine and_congr_right fun hkind => ?_
      have hkeys : ∀ key, key ∈ locators ↔
          ∃ text ∈ cert.locatorTexts, (RsUrl.fromString text).map RsUrl.toString = some key := by
        intro key
        rw [hmem key hlocators, htexts hkind]
        simp
      have hall := hsome.mp rfl
      rw [htexts hkind] at hall
      unfold LocatorsSurvive
      constructor
      · exact fun hlocators' => ⟨hall, fun key => (hlocators' key).symm.trans (hkeys key)⟩
      · exact fun hsurvive key => (hkeys key).trans (hsurvive.2 key).symm

end RoundTrip

/-! ### Two certificates -/

/-- A peer with addresses. -/
def samplePeer : RsPeerDetails where
  isOnlyGPGdetail := false
  id := .replicate 16 7
  location := ascii "home"
  isHiddenNode := false
  hiddenNodeAddress := []
  hiddenNodePort := 0
  localAddr := ascii "192.168.0.2"
  localPort := 7812
  extAddr := ascii "81.2.3.4"
  extPort := 7813
  dyndns := ascii "peer.example.org"
  ipAddressList := []

def sampleCertificate : RsCertificate where
  externalIpAndPort := [81, 2, 3, 4, 30, 133]
  internalIpAndPort := [192, 168, 0, 2, 30, 132]
  pgpKey := some [1, 2, 3]
  locationName := ascii "home"
  locationId := List.replicate 16 7
  dnsName := ascii "peer.example.org"
  hiddenNodeAddress := []
  locators := ∅
  onlyPgp := false
  hiddenNode := false

end RetroShare.Pgp
