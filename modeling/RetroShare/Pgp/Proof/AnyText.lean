import RetroShare.Pgp.Proof.Sections

/-!
# Any text as a certificate

The parser copies what a section announces before it asks whether so much is left. It stays inside
the decoded bytes exactly when every section that it comes to is there as far as it is read, and it
takes a text without a key for a certificate.
-/

namespace RetroShare.Pgp

/-! ### What is read of a section -/

/-- How many bytes behind the size code are read for a section of that size. -/
def bytesRead (ptag : UInt8) (size : Nat) : Nat :=
  match CertificatePtag.ofCode? ptag with
  | some .versionSection => 1
  | some .sslIdSection => if size = 16 then 16 else 0
  | some .locIpAndPortSection | some .extIpAndPortSection => if size = 6 then 6 else 0
  | some .checksumSection | none => 0
  | some .pgpSection | some .nameSection | some .dnsSection | some .hiddenNodeSection
  | some .extraLocator => size

/-- The bytes begin with a size code and all that is read behind it, or with a size that is refused
at once. -/
def StartsWell (rest : List UInt8) : Prop :=
  ∃ ptag data, rest = ptag :: data ∧ (BadSize data ∨ ∃ code size tail,
    data = code ++ tail ∧ SizeCode code size ∧ bytesRead ptag size ≤ tail.length)

/-- The parser goes on behind a section of that tag and content. -/
def Accepts (ptag : UInt8) (body : List UInt8) : Prop :=
  match CertificatePtag.ofCode? ptag with
  | some .sslIdSection => body.length = 16
  | some .locIpAndPortSection | some .extIpAndPortSection => body.length = 6
  | some .checksumSection => False
  | some .extraLocator => (RsUrl.fromString body).isSome
  | some .versionSection | some .pgpSection | some .nameSection | some .dnsSection
  | some .hiddenNodeSection | none => True

section ReadSection

variable {bf buf : List UInt8} {ptag : UInt8} {s totalS : Nat} {state : ParserState}

theorem readBytes_of_le {count : Nat} (hle : count ≤ buf.length) :
    readBytes count buf = .ok (buf.take count) :=
  if_neg (Nat.not_lt.mpr hle)

theorem readBytes_of_lt {count : Nat} (hlt : buf.length < count) :
    readBytes count buf = .error .outside :=
  if_pos hlt

/-- Where a copy leads outside. -/
theorem readBytes_outside {count : Nat} {f : List UInt8 → Parser ParserState}
    (hf : ∀ bytes, f bytes ≠ .error .outside) :
    (readBytes count buf >>= f) = .error .outside ↔ buf.length < count := by
  by_cases hlt : buf.length < count
  · rw [readBytes_of_lt hlt]
    exact iff_of_true rfl hlt
  · rw [readBytes_of_le (Nat.le_of_not_lt hlt)]
    exact iff_of_false (hf _) hlt

/-- Only what is not there leads outside. -/
theorem readSection_outside (hbuf : totalS + buf.length = bf.length) :
    readSection bf ptag s totalS buf state = .error .outside ↔
      buf.length < bytesRead ptag s := by
  unfold readSection bytesRead
  cases CertificatePtag.ofCode? ptag with
  | none => exact iff_of_false nofun (Nat.not_lt_zero _)
  | some tag =>
      cases tag with
      | versionSection =>
          cases buf with
          | nil => exact iff_of_true rfl Nat.zero_lt_one
          | cons version buf => exact iff_of_false nofun (by simp)
      | pgpSection | nameSection | dnsSection | hiddenNodeSection =>
          exact readBytes_outside fun _ => nofun
      | sslIdSection =>
          by_cases hsize : s = 16
          · simp only [hsize, ne_eq, not_true_eq_false, if_false, if_true]
            exact readBytes_outside fun _ => nofun
          · simp only [hsize, ne_eq, not_false_eq_true, if_true, if_false]
            exact iff_of_false nofun (Nat.not_lt_zero _)
      | locIpAndPortSection | extIpAndPortSection =>
          by_cases hsize : s = 6
          · simp only [hsize, ne_eq, not_true_eq_false, if_false, if_true]
            exact readBytes_outside fun _ => nofun
          · simp only [hsize, ne_eq, not_false_eq_true, if_true, if_false]
            exact iff_of_false nofun (Nat.not_lt_zero _)
      | checksumSection =>
          refine iff_of_false ?_ (Nat.not_lt_zero _)
          dsimp only
          split
          · exact nofun
          · next hthere =>
              have hle : 3 ≤ buf.length := by omega
              unfold readChecksum
              rw [readBytes_of_le hle]
              dsimp only [Bind.bind, Except.bind, Pure.pure, Except.pure]
              split <;> exact nofun
      | extraLocator =>
          refine readBytes_outside fun text => ?_
          split <;> exact nofun

/-- The checksum at the end of the buffer. -/
def ChecksumMatches (bf : List UInt8) (bytes : List UInt8) : Prop :=
  bytes.length = 3 ∧ compute24bitsCRC (bf.take (bf.length - 5)) =
    (bytes.getD 0 0).toNat + (bytes.getD 1 0).toNat * 2 ^ 8 + (bytes.getD 2 0).toNat * 2 ^ 16

/-- What one section that is there does to what the parser knows. -/
structure Effect (bf : List UInt8) (ptag : UInt8) (body buf : List UInt8)
    (state state' : ParserState) : Prop where
  accepts : CertificatePtag.ofCode? ptag ≠ some .checksumSection → Accepts ptag body ∧
    state'.checksumCheckPassed = state.checksumCheckPassed
  checksum : CertificatePtag.ofCode? ptag = some .checksumSection →
    ChecksumMatches bf body ∧ body = buf ∧ state'.checksumCheckPassed = true
  key : state'.cert.pgpKey =
    if CertificatePtag.ofCode? ptag = some .pgpSection then some body else state.cert.pgpKey
  version : state'.certificateVersion =
    if CertificatePtag.ofCode? ptag = some .versionSection then buf.headD 0
    else state.certificateVersion

theorem readBytes_body (body back : List UInt8) :
    readBytes body.length (body ++ back) = .ok body := by
  rw [readBytes_of_le (by simp), List.take_left]

variable (bf totalS state) in
/-- A section that is there is read to the end if the parser accepts it. -/
theorem readSection_accepted {body back : List UInt8} (haccepts : Accepts ptag body)
    (hin : bytesRead ptag body.length ≤ (body ++ back).length) :
    ∃ state', readSection bf ptag body.length totalS (body ++ back) state = .ok state' := by
  unfold readSection
  unfold Accepts at haccepts
  unfold bytesRead at hin
  cases hcode : CertificatePtag.ofCode? ptag with
  | none => exact ⟨_, rfl⟩
  | some tag =>
      rw [hcode] at haccepts hin
      cases tag with
      | versionSection =>
          cases hbuf : body ++ back with
          | nil =>
              rw [hbuf] at hin
              cases hin
          | cons version buf => exact ⟨_, rfl⟩
      | pgpSection | nameSection | dnsSection | hiddenNodeSection =>
          dsimp only
          rw [readBytes_body]
          exact ⟨_, rfl⟩
      | sslIdSection =>
          dsimp only at haccepts ⊢
          rw [if_neg (not_not_intro haccepts), ← haccepts, readBytes_body]
          exact ⟨_, rfl⟩
      | locIpAndPortSection | extIpAndPortSection =>
          dsimp only at haccepts ⊢
          rw [if_neg (not_not_intro haccepts), readBytes_body]
          exact ⟨_, rfl⟩
      | checksumSection => cases haccepts
      | extraLocator =>
          obtain ⟨url, hurl⟩ := Option.isSome_iff_exists.mp haccepts
          dsimp only
          rw [readBytes_body]
          dsimp only [Bind.bind, Except.bind]
          rw [hurl]
          exact ⟨_, rfl⟩

theorem readSection_effect {body back : List UInt8} {state' : ParserState}
    (hbuf : totalS + (body ++ back).length = bf.length)
    (hread : readSection bf ptag body.length totalS (body ++ back) state = .ok state') :
    Effect bf ptag body (body ++ back) state state' := by
  unfold readSection at hread
  cases hcode : CertificatePtag.ofCode? ptag with
  | none =>
      rw [hcode] at hread
      cases hread
      constructor <;> simp [hcode, Accepts]
  | some tag =>
      rw [hcode] at hread
      cases tag with
      | versionSection =>
          cases hbytes : body ++ back with
          | nil =>
              rw [hbytes] at hread
              cases hread
          | cons version buf =>
              rw [hbytes] at hread
              cases hread
              constructor <;> simp [hcode, Accepts]
      | pgpSection | nameSection | dnsSection | hiddenNodeSection =>
          dsimp only at hread
          rw [readBytes_body] at hread
          cases hread
          constructor <;> simp [hcode, Accepts]
      | sslIdSection =>
          dsimp only at hread
          split at hread
          · cases hread
          · next hsize =>
              have hlength := not_not.mp hsize
              rw [← hlength, readBytes_body] at hread
              cases hread
              constructor <;> simp [hcode, Accepts, hlength]
      | locIpAndPortSection | extIpAndPortSection =>
          dsimp only at hread
          split at hread
          · cases hread
          · next hsize =>
              rw [readBytes_body] at hread
              cases hread
              constructor <;> simp [hcode, Accepts, not_not.mp hsize]
      | checksumSection =>
          dsimp only at hread
          split at hread
          · cases hread
          · next hsize =>
              obtain ⟨hlength, hlast⟩ := not_or.mp hsize
              have hlength := not_not.mp hlength
              have hback : back = [] := by
                apply List.eq_nil_of_length_eq_zero
                rw [List.length_append] at hbuf
                omega
              have hbytes : readBytes 3 (body ++ back) = .ok body := by
                rw [← hlength]
                exact readBytes_body body back
              unfold readChecksum at hread
              rw [hbytes] at hread
              dsimp only [Bind.bind, Except.bind, Pure.pure, Except.pure] at hread
              split at hread
              · cases hread
              · next hcrc =>
                  cases hread
                  refine ⟨fun hother => absurd hcode hother,
                    fun _ => ⟨⟨hlength, not_not.mp hcrc⟩, ?_, rfl⟩, ?_, ?_⟩
                  · rw [hback, List.append_nil]
                  · simp [hcode]
                  · simp [hcode]
      | extraLocator =>
          dsimp only at hread
          rw [readBytes_body] at hread
          dsimp only [Bind.bind, Except.bind] at hread
          split at hread
          · cases hread
          · next url hurl =>
              cases hread
              constructor <;> simp [hcode, Accepts, hurl]

/-- A section that is not all there tells nothing about the checksum. -/
theorem readSection_oversize {state' : ParserState} (hbuf : totalS + buf.length = bf.length)
    (hshort : buf.length < s) (hread : readSection bf ptag s totalS buf state = .ok state') :
    state'.checksumCheckPassed = state.checksumCheckPassed := by
  unfold readSection at hread
  cases hcode : CertificatePtag.ofCode? ptag with
  | none =>
      rw [hcode] at hread
      cases hread
      rfl
  | some tag =>
      rw [hcode] at hread
      cases tag with
      | versionSection =>
          cases buf with
          | nil => cases hread
          | cons version buf =>
              cases hread
              rfl
      | pgpSection | nameSection | dnsSection | hiddenNodeSection | extraLocator =>
          dsimp only at hread
          rw [readBytes_of_lt hshort] at hread
          cases hread
      | sslIdSection =>
          dsimp only at hread
          split at hread
          · cases hread
          · next hsize =>
              rw [← not_not.mp hsize, readBytes_of_lt hshort] at hread
              cases hread
      | locIpAndPortSection | extIpAndPortSection =>
          dsimp only at hread
          split at hread
          · cases hread
          · rw [readBytes_of_lt hshort] at hread
            cases hread
      | checksumSection =>
          dsimp only at hread
          split at hread
          · cases hread
          · omega

/-- The checksum at the end of the buffer is accepted if it matches. -/
theorem readSection_checksum {body : List UInt8}
    (hcode : CertificatePtag.ofCode? ptag = some .checksumSection)
    (hmatches : ChecksumMatches bf body) (hbuf : totalS + body.length = bf.length) :
    readSection bf ptag body.length totalS body state =
      .ok { state with checksumCheckPassed := true } := by
  obtain ⟨hlength, hcrc⟩ := hmatches
  have hsize : ¬(body.length ≠ 3 ∨ totalS + 3 ≠ bf.length) := by omega
  have hread : readBytes 3 body = .ok body := by
    rw [readBytes_of_le (Nat.le_of_eq hlength.symm), List.take_of_length_le (by omega)]
  unfold readSection readChecksum
  rw [hcode]
  dsimp only
  rw [if_neg hsize, hread]
  dsimp only [Bind.bind, Except.bind, Pure.pure, Except.pure]
  rw [if_neg (not_not_intro hcrc)]

/-- What is read of a whole section is there if something follows it. -/
theorem bytesRead_le_of_whole {body back : List UInt8} (hback : back ≠ []) :
    bytesRead ptag body.length ≤ (body ++ back).length := by
  have hpos := List.length_pos_iff.mpr hback
  rw [List.length_append]
  unfold bytesRead
  split <;> first | omega | (split <;> omega)

end ReadSection

/-! ### The loop -/

section Loop

variable {bf : List UInt8} {totalS : Nat} {state : ParserState}

theorem parseSections_end (hend : bf.length ≤ totalS) (buf : List UInt8) :
    parseSections bf buf totalS state = .ok state := by
  rw [parseSections]
  exact if_neg (Nat.not_lt.mpr hend)

theorem parseSections_truncated {ptag : UInt8} {data : List UInt8} (hmore : totalS < bf.length)
    (hdata : read125Size data = (.error .outside : Parser _)) :
    parseSections bf (ptag :: data) totalS state = .error .outside := by
  rw [parseSections, if_pos hmore, readByte_cons]
  dsimp only [Bind.bind, Except.bind]
  rw [hdata]

theorem parseSections_bad {ptag : UInt8} {data : List UInt8} (hmore : totalS < bf.length)
    (hdata : BadSize data) :
    parseSections bf (ptag :: data) totalS state = .error .thrown := by
  rw [parseSections, if_pos hmore, readByte_cons]
  dsimp only [Bind.bind, Except.bind]
  rw [read125Size_bad hdata]

/-- One pass of the loop, at a size code. -/
theorem parseSections_code {ptag : UInt8} {code tail : List UInt8} {size : Nat}
    (hcode : SizeCode code size) (hbuf : totalS + (ptag :: (code ++ tail)).length = bf.length) :
    parseSections bf (ptag :: (code ++ tail)) totalS state =
      (readSection bf ptag size (totalS + (1 + code.length)) tail state >>= fun state' =>
        parseSections bf (tail.drop size) (totalS + (1 + code.length) + size) state') := by
  rw [List.length_cons, List.length_append] at hbuf
  have hcount : (code ++ tail).length - tail.length = code.length := by
    rw [List.length_append]
    omega
  rw [parseSections, if_pos (by omega), readByte_cons]
  dsimp only [Bind.bind, Except.bind]
  rw [read125Size_code hcode]
  dsimp only
  rw [hcount, if_neg (by omega)]

/-- At every place that the parser comes to, the bytes start well. -/
def ReadsInside (rest : List UInt8) : Prop :=
  ∀ front rest', rest = bytesOf front ++ rest' → (∀ sec ∈ front, Accepts sec.ptag sec.body) →
    rest' ≠ [] → StartsWell rest'

theorem readsInside_nil : ReadsInside [] := by
  intro front rest' heq _ hne
  exact absurd (List.append_eq_nil_iff.mp heq.symm).2 hne

/-- Behind an accepted section the same is asked of the rest. -/
theorem readsInside_section {sec : Section} {rest : List UInt8}
    (hstarts : StartsWell (sec.bytes ++ rest)) :
    ReadsInside (sec.bytes ++ rest) ↔ (Accepts sec.ptag sec.body → ReadsInside rest) := by
  constructor
  · intro hinside haccepts front rest' heq hfront
    apply hinside (sec :: front) rest'
    · rw [heq]
      simp [Section.bytes]
    · exact List.forall_mem_cons.mpr ⟨haccepts, hfront⟩
  · intro hrest front rest' heq hfront hne
    cases front with
    | nil =>
        rw [bytesOf_nil, List.nil_append] at heq
        exact heq ▸ hstarts
    | cons first front =>
        have hsplit : sec.bytes ++ rest = first.bytes ++ (bytesOf front ++ rest') := by
          rw [heq]
          simp [Section.bytes]
        obtain ⟨rfl, hrest'⟩ := Section.bytes_append_inj hsplit
        obtain ⟨haccepts, hfront⟩ := List.forall_mem_cons.mp hfront
        exact hrest haccepts front rest' hrest' hfront hne

/-- Where no whole section stands, only the beginning counts. -/
theorem readsInside_of_none {rest : List UInt8} (hstarts : StartsWell rest)
    (hnone : ∀ (sec : Section) rest', rest ≠ sec.bytes ++ rest') : ReadsInside rest := by
  intro front rest' heq _ _
  cases front with
  | nil =>
      rw [bytesOf_nil, List.nil_append] at heq
      exact heq ▸ hstarts
  | cons first front =>
      refine absurd (heq.trans ?_) (hnone first (bytesOf front ++ rest'))
      simp [Section.bytes]

/-- A size code decides how the bytes start. -/
theorem startsWell_code {ptag : UInt8} {code tail : List UInt8} {size : Nat}
    (hcode : SizeCode code size) :
    StartsWell (ptag :: (code ++ tail)) ↔ bytesRead ptag size ≤ tail.length := by
  constructor
  · rintro ⟨ptag', data, heq, hwell⟩
    obtain ⟨rfl, hdata⟩ := List.cons.inj heq
    rcases hwell with hbad | ⟨code', size', tail', rfl, hcode', hin⟩
    · have hread : (.error .thrown : Parser (Nat × List UInt8)) = .ok (size, tail) := by
        rw [← read125Size_bad hbad, ← hdata, read125Size_code hcode]
      cases hread
    · obtain ⟨_, rfl, rfl⟩ := section_unique hcode hcode' hdata
      exact hin
  · exact fun hin => ⟨ptag, code ++ tail, rfl, .inr ⟨code, size, tail, rfl, hcode, hin⟩⟩

/-- One pass over a section that is all there. -/
theorem parseSections_outside_whole {sec : Section} {rest : List UInt8}
    (hbuf : totalS + (sec.bytes ++ rest).length = bf.length)
    (hin : bytesRead sec.ptag sec.body.length ≤ (sec.body ++ rest).length)
    (hrest : ∀ state', parseSections bf rest (totalS + sec.bytes.length) state' =
      .error .outside ↔ ¬ReadsInside rest) :
    parseSections bf (sec.bytes ++ rest) totalS state = .error .outside ↔
      ¬ReadsInside (sec.bytes ++ rest) := by
  have htext := sec.bytes_append rest
  have hstarts : StartsWell (sec.bytes ++ rest) := by
    rw [htext]
    exact (startsWell_code sec.coded).mpr hin
  have htotal : totalS + (1 + sec.code.length) + sec.body.length =
      totalS + sec.bytes.length := by
    simp only [Section.bytes, List.length_cons, List.length_append]
    omega
  have hbuf' : totalS + (1 + sec.code.length) + (sec.body ++ rest).length = bf.length := by
    rw [← hbuf]
    simp only [Section.bytes, List.length_cons, List.length_append]
    omega
  rw [readsInside_section hstarts]
  rw [htext] at hbuf ⊢
  rw [parseSections_code sec.coded hbuf, List.drop_left, htotal]
  cases hread : readSection bf sec.ptag sec.body.length (totalS + (1 + sec.code.length))
      (sec.body ++ rest) state with
  | error stop =>
      refine iff_of_false (fun hstop => ?_) (not_not_intro fun haccepts => ?_)
      · have hout : (.error stop : Parser ParserState) = .error .outside := hstop
        rw [hout, readSection_outside hbuf'] at hread
        exact absurd hin (Nat.not_le.mpr hread)
      · obtain ⟨state', hok⟩ := readSection_accepted bf (totalS + (1 + sec.code.length)) state
          haccepts hin
        rw [hok] at hread
        cases hread
  | ok state' =>
      have heffect := readSection_effect hbuf' hread
      refine (hrest state').trans (not_congr ?_)
      by_cases hchecksum : CertificatePtag.ofCode? sec.ptag = some .checksumSection
      · have hlast : rest = [] :=
          List.append_right_eq_self.mp (heffect.checksum hchecksum).2.1.symm
        subst hlast
        exact iff_of_true readsInside_nil fun _ => readsInside_nil
      · exact ⟨fun hinside _ => hinside, fun hinside =>
          hinside (heffect.accepts hchecksum).1⟩

/-- **The loop leaves the buffer exactly where the bytes do not start well.** -/
theorem parseSections_outside (n : Nat) :
    ∀ {rest : List UInt8} {totalS : Nat} {state : ParserState}, rest.length ≤ n →
      totalS + rest.length = bf.length →
        (parseSections bf rest totalS state = .error .outside ↔ ¬ReadsInside rest) := by
  induction n with
  | zero =>
      intro rest totalS state hn hbuf
      have hnil : rest = [] := List.eq_nil_of_length_eq_zero (Nat.le_zero.mp hn)
      subst hnil
      have hend : bf.length ≤ totalS := Nat.le_of_eq hbuf.symm
      rw [parseSections_end hend]
      exact iff_of_false nofun (not_not_intro readsInside_nil)
  | succ n ih =>
      intro rest totalS state hn hbuf
      match rest with
      | [] =>
          have hend : bf.length ≤ totalS := Nat.le_of_eq hbuf.symm
          rw [parseSections_end hend]
          exact iff_of_false nofun (not_not_intro readsInside_nil)
      | ptag :: data =>
          have hmore : totalS < bf.length := by
            rw [List.length_cons] at hbuf
            omega
          rcases read125Size_cases data with ⟨code, size, tail, rfl, hcode⟩ | hbad | htruncated
          · have hbuf' : totalS + (1 + code.length) + tail.length = bf.length := by
              rw [← hbuf, List.length_cons, List.length_append]
              omega
            by_cases hin : bytesRead ptag size ≤ tail.length
            · by_cases hthere : size ≤ tail.length
              · have hcoded : SizeCode code (tail.take size).length := by
                  rw [List.length_take_of_le hthere]
                  exact hcode
                have htext : ptag :: (code ++ tail) =
                    Section.bytes ⟨ptag, code, tail.take size, hcoded⟩ ++ tail.drop size := by
                  rw [Section.bytes_append, List.take_append_drop]
                rw [htext] at hbuf ⊢
                apply parseSections_outside_whole hbuf
                · rw [List.take_append_drop, List.length_take_of_le hthere]
                  exact hin
                · intro state'
                  rw [List.length_append] at hbuf
                  apply ih
                  · simp only [List.length_cons, List.length_append, List.length_drop] at hn ⊢
                    omega
                  · omega
              · rw [parseSections_code hcode hbuf]
                refine iff_of_false (fun hstop => ?_) (not_not_intro ?_)
                · cases hread : readSection bf ptag size (totalS + (1 + code.length)) tail state with
                  | error stop =>
                      rw [hread] at hstop
                      have hout : (.error stop : Parser ParserState) = .error .outside := hstop
                      rw [hout, readSection_outside hbuf'] at hread
                      exact absurd hin (Nat.not_le.mpr hread)
                  | ok state' =>
                      rw [hread] at hstop
                      have hout : parseSections bf (tail.drop size)
                          (totalS + (1 + code.length) + size) state' = .error .outside := hstop
                      rw [parseSections_end (by omega)] at hout
                      cases hout
                · refine readsInside_of_none ((startsWell_code hcode).mpr hin) ?_
                  intro sec rest' heq
                  obtain ⟨_, hdata⟩ := List.cons.inj (heq.trans (sec.bytes_append rest'))
                  obtain ⟨_, rfl, rfl⟩ := section_unique hcode sec.coded hdata
                  exact hthere (by simp)
            · rw [parseSections_code hcode hbuf,
                (readSection_outside hbuf').mpr (Nat.not_le.mp hin)]
              refine iff_of_true rfl fun hinside => hin ?_
              exact (startsWell_code hcode).mp
                (hinside [] _ rfl nofun (List.cons_ne_nil _ _))
          · rw [parseSections_bad hmore hbad]
            refine iff_of_false nofun (not_not_intro ?_)
            refine readsInside_of_none ⟨ptag, data, rfl, .inl hbad⟩ fun sec rest' heq => ?_
            obtain ⟨_, hdata⟩ := List.cons.inj (heq.trans (sec.bytes_append rest'))
            have hread : (.error .thrown : Parser (Nat × List UInt8)) =
                .ok (sec.body.length, sec.body ++ rest') := by
              rw [← read125Size_bad hbad, hdata, read125Size_code sec.coded]
            cases hread
          · rw [parseSections_truncated hmore htruncated]
            refine iff_of_true rfl fun hinside => ?_
            obtain ⟨ptag', data', heq, hwell⟩ :=
              hinside [] (ptag :: data) rfl nofun (List.cons_ne_nil _ _)
            obtain ⟨rfl, rfl⟩ := List.cons.inj heq
            rcases hwell with hbad | ⟨code, size, tail, rfl, hcode, _⟩
            · rw [read125Size_bad hbad] at htruncated
              cases htruncated
            · rw [read125Size_code hcode] at htruncated
              cases htruncated

end Loop

/-! ### Acceptance -/

/-- The key after these sections; a later one replaces an earlier one. -/
def keyAfter (key : Option (List UInt8)) : List Section → Option (List UInt8)
  | [] => key
  | sec :: sections =>
      keyAfter (if CertificatePtag.ofCode? sec.ptag = some .pgpSection then some sec.body else key)
        sections

/-- The version after these sections. From an empty section the byte behind it is taken. -/
def versionAfter (version : UInt8) : List Section → UInt8
  | [] => version
  | sec :: sections =>
      versionAfter (if CertificatePtag.ofCode? sec.ptag = some .versionSection then
        (sec.body ++ bytesOf sections).headD 0 else version) sections

/-- The sections fill the bytes up to the end, where a checksum stands that matches. -/
structure Tiles (bf rest : List UInt8) (front : List Section) (last : Section) : Prop where
  fills : rest = bytesOf (front ++ [last])
  accepted : ∀ sec ∈ front, Accepts sec.ptag sec.body
  checksum : CertificatePtag.ofCode? last.ptag = some .checksumSection
  isMatch : ChecksumMatches bf last.body

section Acceptance

variable {bf : List UInt8}

/-- Sections that fill the bytes are all read. -/
theorem parseSections_of_tiles {last : Section} (front : List Section) :
    ∀ {rest : List UInt8} {totalS : Nat} {state : ParserState},
      Tiles bf rest front last → totalS + rest.length = bf.length →
        ∃ state', parseSections bf rest totalS state = .ok state' ∧
          state'.checksumCheckPassed = true ∧
          state'.cert.pgpKey = keyAfter state.cert.pgpKey (front ++ [last]) ∧
          state'.certificateVersion = versionAfter state.certificateVersion (front ++ [last]) := by
  induction front with
  | nil =>
      intro rest totalS state htiles hbuf
      have hrest : rest = last.ptag :: (last.code ++ last.body) := by
        rw [htiles.fills]
        simp
      subst hrest
      have hlast : totalS + (1 + last.code.length) + last.body.length = bf.length := by
        rw [← hbuf]
        simp only [List.length_cons, List.length_append]
        omega
      have hdrop : last.body.drop last.body.length = [] := List.drop_length
      rw [parseSections_code last.coded hbuf,
        readSection_checksum htiles.checksum htiles.isMatch hlast, hdrop]
      refine ⟨_, parseSections_end (Nat.le_of_eq hlast.symm) _, rfl, ?_, ?_⟩
      · simp [keyAfter, htiles.checksum]
      · simp [versionAfter, htiles.checksum]
  | cons sec front ih =>
      intro rest totalS state htiles hbuf
      have hrest : rest = sec.bytes ++ bytesOf (front ++ [last]) := by
        rw [htiles.fills]
        simp [Section.bytes]
      obtain ⟨haccepts, hfront⟩ := List.forall_mem_cons.mp htiles.accepted
      have hne : bytesOf (front ++ [last]) ≠ [] := by simp
      subst hrest
      rw [Section.bytes_append] at hbuf ⊢
      have htotal : totalS + (1 + sec.code.length) +
          (sec.body ++ bytesOf (front ++ [last])).length = bf.length := by
        rw [← hbuf]
        simp only [List.length_cons, List.length_append]
        omega
      obtain ⟨state', hread⟩ := readSection_accepted bf (totalS + (1 + sec.code.length)) state
        haccepts (bytesRead_le_of_whole hne)
      have heffect := readSection_effect htotal hread
      rw [parseSections_code sec.coded hbuf, hread, List.drop_left]
      rw [List.length_append] at htotal
      have htiles' : Tiles bf (bytesOf (front ++ [last])) front last :=
        ⟨rfl, hfront, htiles.checksum, htiles.isMatch⟩
      obtain ⟨final, hparse, hpassed, hkey, hversion⟩ :=
        @ih _ _ state' htiles' ((Nat.add_assoc _ _ _).trans htotal)
      refine ⟨final, hparse, hpassed, ?_, ?_⟩
      · rw [hkey, heffect.key]
        rfl
      · rw [hversion, heffect.version]
        rfl

/-- Where the checksum is passed, sections fill the bytes. -/
theorem tiles_of_parseSections (n : Nat) :
    ∀ {rest : List UInt8} {totalS : Nat} {state final : ParserState}, rest.length ≤ n →
      totalS + rest.length = bf.length → state.checksumCheckPassed = false →
      parseSections bf rest totalS state = .ok final → final.checksumCheckPassed = true →
        ∃ front last, Tiles bf rest front last := by
  induction n with
  | zero =>
      intro rest totalS state final hn hbuf hnotYet hparse hpassed
      have hnil : rest = [] := List.eq_nil_of_length_eq_zero (Nat.le_zero.mp hn)
      subst hnil
      have hend : bf.length ≤ totalS := Nat.le_of_eq hbuf.symm
      rw [parseSections_end hend] at hparse
      cases hparse
      rw [hnotYet] at hpassed
      cases hpassed
  | succ n ih =>
      intro rest totalS state final hn hbuf hnotYet hparse hpassed
      match rest with
      | [] =>
          have hend : bf.length ≤ totalS := Nat.le_of_eq hbuf.symm
          rw [parseSections_end hend] at hparse
          cases hparse
          rw [hnotYet] at hpassed
          cases hpassed
      | ptag :: data =>
          have hmore : totalS < bf.length := by
            rw [List.length_cons] at hbuf
            omega
          rcases read125Size_cases data with ⟨code, size, tail, rfl, hcode⟩ | hbad | htruncated
          · have hbuf' : totalS + (1 + code.length) + tail.length = bf.length := by
              rw [← hbuf, List.length_cons, List.length_append]
              omega
            rw [parseSections_code hcode hbuf] at hparse
            cases hread : readSection bf ptag size (totalS + (1 + code.length)) tail state with
            | error stop =>
                rw [hread] at hparse
                cases hparse
            | ok state' =>
                rw [hread] at hparse
                have hrest : parseSections bf (tail.drop size)
                    (totalS + (1 + code.length) + size) state' = .ok final := hparse
                by_cases hthere : size ≤ tail.length
                · have hlength : (tail.take size).length = size := List.length_take_of_le hthere
                  have hcoded : SizeCode code (tail.take size).length := by
                    rw [hlength]
                    exact hcode
                  have hsplit := List.take_append_drop size tail
                  have hwhole : totalS + (1 + code.length) +
                      (tail.take size ++ tail.drop size).length = bf.length := by
                    rw [hsplit]
                    exact hbuf'
                  have hbody : readSection bf ptag (tail.take size).length
                      (totalS + (1 + code.length)) (tail.take size ++ tail.drop size) state =
                        .ok state' := by
                    rw [hsplit, hlength]
                    exact hread
                  have heffect := readSection_effect hwhole hbody
                  by_cases hchecksum : CertificatePtag.ofCode? ptag = some .checksumSection
                  · obtain ⟨hmatch, hall, _⟩ := heffect.checksum hchecksum
                    refine ⟨[], ⟨ptag, code, tail.take size, hcoded⟩, ?_, nofun, hchecksum, hmatch⟩
                    rw [hsplit] at hall
                    simp [hall]
                  · obtain ⟨haccepts, hkept⟩ := heffect.accepts hchecksum
                    have hn' : (tail.drop size).length ≤ n := by
                      simp only [List.length_cons, List.length_append] at hn
                      rw [List.length_drop]
                      omega
                    have hbehind : totalS + (1 + code.length) + size +
                        (tail.drop size).length = bf.length := by
                      rw [List.length_drop]
                      omega
                    obtain ⟨front, last, htiles⟩ :=
                      ih hn' hbehind (hkept.trans hnotYet) hrest hpassed
                    refine ⟨⟨ptag, code, tail.take size, hcoded⟩ :: front, last, ?_,
                      List.forall_mem_cons.mpr ⟨haccepts, htiles.accepted⟩, htiles.checksum,
                      htiles.isMatch⟩
                    rw [List.cons_append, bytesOf_cons, ← htiles.fills, hsplit]
                · rw [parseSections_end (by omega)] at hrest
                  cases hrest
                  rw [readSection_oversize hbuf' (Nat.not_le.mp hthere) hread, hnotYet] at hpassed
                  cases hpassed
          · rw [parseSections_bad hmore hbad] at hparse
            cases hparse
          · rw [parseSections_truncated hmore htruncated] at hparse
            cases hparse

/-- A key comes from a key section. -/
theorem mem_of_keyAfter {key : List UInt8} (sections : List Section) :
    ∀ {before : Option (List UInt8)}, keyAfter before sections = some key →
      before = some key ∨ ∃ sec ∈ sections,
        CertificatePtag.ofCode? sec.ptag = some .pgpSection ∧ sec.body = key := by
  induction sections with
  | nil => exact fun hkey => .inl hkey
  | cons sec sections ih =>
      intro before hkey
      rw [keyAfter] at hkey
      rcases ih hkey with hhere | ⟨sec', hmem, hsec'⟩
      · split at hhere
        · next hpgp =>
            exact .inr ⟨sec, List.mem_cons_self, hpgp, Option.some.inj hhere⟩
        · exact .inl hhere
      · exact .inr ⟨sec', List.mem_cons_of_mem _ hmem, hsec'⟩

theorem keyAfter_isSome (sections : List Section) :
    ∀ {before : Option (List UInt8)}, (before.isSome ∨ ∃ sec ∈ sections,
      CertificatePtag.ofCode? sec.ptag = some .pgpSection) →
        (keyAfter before sections).isSome := by
  induction sections with
  | nil =>
      rintro before (hbefore | ⟨_, hmem, _⟩)
      · exact hbefore
      · cases hmem
  | cons sec sections ih =>
      rintro before hkey
      rw [keyAfter]
      apply ih
      by_cases hpgp : CertificatePtag.ofCode? sec.ptag = some .pgpSection
      · rw [if_pos hpgp]
        exact .inl rfl
      · rw [if_neg hpgp]
        refine hkey.imp_right ?_
        rintro ⟨sec', hmem, hsec'⟩
        cases List.mem_cons.mp hmem with
        | inl heq => exact absurd (heq ▸ hsec') hpgp
        | inr hmem => exact ⟨sec', hmem, hsec'⟩

end Acceptance

/-! ### Any text -/

/-- The text has none but blanks and characters of the alphabet, and the counter gets to its end. -/
def WellText (instr : Str) : Prop :=
  instr.length < 2 ^ 32 ∧ ∀ c ∈ instr, isBlank c = true ∨ isAcceptableRadix64Char c = true

/-- What the sections are read from. -/
def decoded (instr : Str) : List UInt8 := Radix64.decode (instr.filter fun c => !isBlank c)

/-- The parser returns, stays inside the decoded bytes, and says yes only to sections that fill them,
with a matching checksum at the end and a key. -/
def Safe (memory : Uninitialised) (instr : Str) : Prop :=
  match initFromString memory instr with
  | .endless | .outside => False
  | .returnsFalse _ => True
  | .returnsTrue cert => ∃ front last, decoded instr = bytesOf (front ++ [last]) ∧
      CertificatePtag.ofCode? last.ptag = some .checksumSection ∧
      ChecksumMatches (decoded instr) last.body ∧
      ∃ sec ∈ front ++ [last], CertificatePtag.ofCode? sec.ptag = some .pgpSection ∧
        cert.pgpKey = some sec.body

/-- The text is no endless blank, at every place that the parser comes to the bytes start well, and a
certificate that is complete otherwise has a key. -/
def Fits (instr : Str) : Prop :=
  ¬(2 ^ 32 ≤ instr.length ∧ (instr.take (2 ^ 32)).all isBlank = true) ∧
    (WellText instr → ReadsInside (decoded instr) ∧ ∀ front last,
      Tiles (decoded instr) (decoded instr) front last →
      versionAfter 0 (front ++ [last]) = certificateVersion06 →
        ∃ sec ∈ front ++ [last], CertificatePtag.ofCode? sec.ptag = some .pgpSection)

theorem initFromString_wellText (memory : Uninitialised) {instr : Str} (hwell : WellText instr) :
    initFromString memory instr =
      match parseBuffer (decoded instr) (.blank memory) with
      | .error .outside => .outside
      | .error .thrown => .returnsFalse .sizeError
      | .error (.rejected err) => .returnsFalse err
      | .ok cert => .returnsTrue cert := by
  obtain ⟨hlength, hchars⟩ := hwell
  have htake : instr.take (2 ^ 32) = instr := List.take_of_length_le (Nat.le_of_lt hlength)
  have hgood : (instr.any fun c => !isBlank c && !isAcceptableRadix64Char c) = false := by
    rw [List.any_eq_false]
    intro c hc
    rcases hchars c hc with h | h <;> simp [h]
  unfold initFromString
  dsimp only
  rw [htake, hgood, if_neg Bool.false_ne_true, if_neg (Nat.not_le.mpr hlength)]
  rfl

/-- Texts of any other kind. -/
theorem initFromString_other (memory : Uninitialised) {instr : Str} (hother : ¬WellText instr) :
    (2 ^ 32 ≤ instr.length ∧ (instr.take (2 ^ 32)).all isBlank = true ∧
      initFromString memory instr = .endless) ∨
    (¬(2 ^ 32 ≤ instr.length ∧ (instr.take (2 ^ 32)).all isBlank = true) ∧
      ∃ err, initFromString memory instr = .returnsFalse err) := by
  unfold initFromString
  dsimp only
  split
  · next hbad =>
      obtain ⟨c, hmem, hc⟩ := List.any_eq_true.mp hbad
      rw [Bool.and_eq_true, Bool.not_eq_true'] at hc
      refine .inr ⟨fun hblank => ?_, _, rfl⟩
      have hthis := List.all_eq_true.mp hblank.2 c hmem
      rw [hc.1] at hthis
      cases hthis
  · next hgood =>
      by_cases hlong : 2 ^ 32 ≤ instr.length
      · rw [if_pos hlong]
        by_cases hblank : (instr.take (2 ^ 32)).all isBlank = true
        · exact .inl ⟨hlong, hblank, if_pos hblank⟩
        · exact .inr ⟨fun hboth => hblank hboth.2, _, if_neg hblank⟩
      · refine absurd ⟨Nat.not_le.mp hlong, fun c hc => ?_⟩ hother
        rw [List.take_of_length_le (Nat.le_of_lt (Nat.not_le.mp hlong)), Bool.not_eq_true,
          List.any_eq_false] at hgood
        have hthis := hgood c hc
        rw [Bool.and_eq_true, not_and_or, Bool.not_eq_true', Bool.not_eq_true',
          Bool.not_eq_false, Bool.not_eq_false] at hthis
        exact hthis

theorem parseBuffer_outside (bf : List UInt8) (memory : Uninitialised) :
    parseBuffer bf (.blank memory) = .error .outside ↔ ¬ReadsInside bf := by
  have hloop : ∀ state, parseSections bf bf 0 state = .error .outside ↔ ¬ReadsInside bf :=
    fun state => parseSections_outside bf.length le_rfl (Nat.zero_add _)
  rw [← hloop ⟨.blank memory, false, 0⟩]
  unfold parseBuffer
  cases parseSections bf bf 0 ⟨.blank memory, false, 0⟩ with
  | error stop =>
      cases stop
      · exact iff_of_true rfl rfl
      · exact iff_of_false nofun nofun
      · exact iff_of_false nofun nofun
  | ok state =>
      refine iff_of_false (fun hstop => ?_) nofun
      dsimp only [Bind.bind, Except.bind] at hstop
      split at hstop
      · cases hstop
      · split at hstop <;> cases hstop

/-- What is behind a certificate that is accepted. -/
theorem tiles_of_parseBuffer {bf : List UInt8} {memory : Uninitialised} {cert : RsCertificate}
    (hparse : parseBuffer bf (.blank memory) = .ok cert) :
    ∃ front last, Tiles bf bf front last ∧
      versionAfter 0 (front ++ [last]) = certificateVersion06 ∧
        cert.pgpKey = keyAfter none (front ++ [last]) := by
  unfold parseBuffer at hparse
  cases hsections : parseSections bf bf 0 ⟨.blank memory, false, 0⟩ with
  | error stop =>
      rw [hsections] at hparse
      cases hparse
  | ok state =>
      rw [hsections] at hparse
      dsimp only [Bind.bind, Except.bind] at hparse
      split at hparse
      · cases hparse
      · next hpassed =>
          split at hparse
          · cases hparse
          · next hversion =>
              cases hparse
              have hpassed' : state.checksumCheckPassed = true := by simpa using hpassed
              obtain ⟨front, last, htiles⟩ := tiles_of_parseSections bf.length le_rfl
                (Nat.zero_add _) rfl hsections hpassed'
              obtain ⟨state', hsections', _, hkey, hversion'⟩ :=
                @parseSections_of_tiles bf last front bf 0 ⟨.blank memory, false, 0⟩ htiles
                  (Nat.zero_add _)
              cases hsections.symm.trans hsections'
              exact ⟨front, last, htiles, hversion'.symm.trans (not_not.mp hversion), hkey⟩

theorem parseBuffer_of_tiles {bf : List UInt8} (memory : Uninitialised) {front : List Section}
    {last : Section} (htiles : Tiles bf bf front last)
    (hversion : versionAfter 0 (front ++ [last]) = certificateVersion06) :
    ∃ cert, parseBuffer bf (.blank memory) = .ok cert ∧
      cert.pgpKey = keyAfter none (front ++ [last]) := by
  obtain ⟨state, hsections, hpassed, hkey, hversion'⟩ :=
    @parseSections_of_tiles bf last front bf 0 ⟨.blank memory, false, 0⟩ htiles (Nat.zero_add _)
  refine ⟨state.cert, ?_, hkey⟩
  unfold parseBuffer
  rw [hsections]
  dsimp only [Bind.bind, Except.bind]
  rw [hpassed, hversion', hversion]
  rfl

/-- **Any text can be pasted as a certificate**, exactly if it fits. -/
theorem initFromString_safe_iff (memory : Uninitialised) (instr : Str) : Safe memory instr ↔ Fits instr := by
  unfold Safe Fits
  by_cases hwell : WellText instr
  · have hshort : ¬(2 ^ 32 ≤ instr.length ∧ (instr.take (2 ^ 32)).all isBlank = true) :=
      fun hboth => absurd hwell.1 (Nat.not_lt.mpr hboth.1)
    rw [initFromString_wellText memory hwell]
    have houtside := parseBuffer_outside (decoded instr) memory
    cases hparse : parseBuffer (decoded instr) (.blank memory) with
    | error stop =>
        have hnoTiles : ∀ front last, Tiles (decoded instr) (decoded instr) front last →
            versionAfter 0 (front ++ [last]) ≠ certificateVersion06 := by
          intro front last htiles hversion
          obtain ⟨cert, hok, _⟩ := parseBuffer_of_tiles memory htiles hversion
          rw [hok] at hparse
          cases hparse
        cases stop with
        | outside =>
            refine iff_of_false id fun hfits => ?_
            exact houtside.mp hparse (hfits.2 hwell).1
        | thrown | rejected err =>
            refine iff_of_true trivial ⟨hshort, fun _ => ⟨?_, fun front last htiles hversion =>
              absurd hversion (hnoTiles front last htiles)⟩⟩
            rw [hparse] at houtside
            exact not_not.mp fun hnot => absurd (houtside.mpr hnot) nofun
    | ok cert =>
        have hinside : ReadsInside (decoded instr) := by
          rw [hparse] at houtside
          exact not_not.mp fun hnot => absurd (houtside.mpr hnot) nofun
        dsimp only
        constructor
        · rintro ⟨_, _, _, _, _, sec, _, _, hkey⟩
          refine ⟨hshort, fun _ => ⟨hinside, fun front last htiles hversion => ?_⟩⟩
          obtain ⟨cert', hok, hkey'⟩ := parseBuffer_of_tiles memory htiles hversion
          cases hparse.symm.trans hok
          rcases mem_of_keyAfter (front ++ [last]) (hkey'.symm.trans hkey) with h | h
          · cases h
          · obtain ⟨sec', hmem, hpgp, _⟩ := h
            exact ⟨sec', hmem, hpgp⟩
        · intro hfits
          obtain ⟨front, last, htiles, hversion, hkey⟩ := tiles_of_parseBuffer hparse
          obtain ⟨sec, hmem, hpgp⟩ := (hfits.2 hwell).2 front last htiles hversion
          have hsome : (keyAfter none (front ++ [last])).isSome :=
            keyAfter_isSome _ (.inr ⟨sec, hmem, hpgp⟩)
          obtain ⟨key, hkey'⟩ := Option.isSome_iff_exists.mp hsome
          refine ⟨front, last, htiles.fills, htiles.checksum, htiles.isMatch, ?_⟩
          rcases mem_of_keyAfter (front ++ [last]) hkey' with h | h
          · cases h
          · obtain ⟨sec', hmem', hpgp', hbody⟩ := h
            exact ⟨sec', hmem', hpgp', by rw [hkey, hkey', hbody]⟩
  · rcases initFromString_other memory hwell with ⟨hlong, hblank, hendless⟩ | ⟨hnot, err, hfalse⟩
    · rw [hendless]
      exact iff_of_false id fun hfits => hfits.1 ⟨hlong, hblank⟩
    · rw [hfalse]
      exact iff_of_true trivial ⟨hnot, fun hwell' => absurd hwell' hwell⟩

/-- The two characters and the padding decode to a single byte, the tag of a key section: its size
is read behind the end. -/
theorem initFromString_safe_counterexample :
    ¬∀ (memory : Uninitialised) (instr : Str), Safe memory instr := by
  intro hall
  have hsafe := hall ⟨.replicate 6 0, .replicate 6 0, false⟩ (ascii "AQ==")
  have houtside : initFromString ⟨.replicate 6 0, .replicate 6 0, false⟩ (ascii "AQ==") = .outside := by
    have hdecoded : decoded (ascii "AQ==") = [1] := by decide +kernel
    rw [initFromString_wellText _ ⟨by decide +kernel, by decide +kernel⟩, hdecoded]
    unfold parseBuffer
    rw [parseSections_truncated (by decide +kernel) (by rfl)]
    rfl
  unfold Safe at hsafe
  rw [houtside] at hsafe
  exact hsafe

end RetroShare.Pgp
