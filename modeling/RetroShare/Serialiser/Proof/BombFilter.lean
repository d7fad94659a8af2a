import RetroShare.Foundation.StreamMatch
import RetroShare.Serialiser.Tlv

/-!
# What the filter against XML bombs removes

`find_decoded_string` matches a suspicious string in the decoded text without going back after a
partial match. It finds the occurrences that are behind broken beginnings of the suspicious string,
and passes over one that starts inside such a beginning.
-/

namespace RetroShare.Serialiser

open Bytes StreamMatch

/-- Each `%XY` with hexadecimal digits is replaced by its byte, from left to right. -/
def percentDecode : List UInt8 → List UInt8
  | [] => []
  | [c] => [c]
  | [c, s1] => [c, s1]
  | c :: s1 :: s2 :: rest =>
      match if c = 37 then readHex s1 s2 else none with
      | some hexv => hexv :: percentDecode rest
      | none => c :: percentDecode (s1 :: s2 :: rest)

/-- One of the suspicious strings is in the decoded text. -/
def Suspicious (str : List UInt8) : Prop :=
  ∃ suspicious ∈ suspiciousStrings, suspicious <:+: percentDecode str

/-- One of the suspicious strings is behind broken beginnings of itself in the decoded text. -/
def Caught (str : List UInt8) : Prop :=
  ∃ suspicious ∈ suspiciousStrings, Reaches suspicious (percentDecode str)

/-- The warning, cut or filled up with blanks. -/
def removalNotice (size : Nat) : List UInt8 := (List.range size).map fun k => errIn.getD k 32

/-- What should become of a string. -/
def Filtered (type : Nat) (str delivered : List UInt8) : Prop :=
  (Suspicious str → delivered = removalNotice str.length) ∧
    (¬Suspicious str → delivered = blankControls type str)

/-- The string of a record, as it stands in the packet. -/
def tlvStringData (packet : Packet) (reader : Reader) : List UInt8 :=
  slice packet.data (reader.offset + tlvHeaderSize)
    (Word.sub 32 (getTlvSize packet reader).1 tlvHeaderSize)

/-! ### The matcher -/

theorem findDecodedFrom_skip (suspicious rest : List UInt8) (s1 s2 : UInt8) (met : Nat) :
    findDecodedFrom suspicious (s1 :: s2 :: rest) 2 met = findDecodedFrom suspicious rest 0 met :=
  rfl

theorem findDecodedFrom_eq (suspicious str : List UInt8) : ∀ met,
    findDecodedFrom suspicious str 0 met = restartMatch suspicious (percentDecode str) met := by
  induction str using percentDecode.induct with
  | case1 => exact fun _ => rfl
  | case2 c => exact fun _ => rfl
  | case3 c s1 => exact fun _ => rfl
  | case4 c s1 s2 rest hexv hdecoded ih =>
      intro met
      rw [percentDecode, hdecoded, findDecodedFrom, restartMatch]
      simp only [hdecoded, Option.getD_some, Option.isSome_some, ↓reduceIte, findDecodedFrom_skip, ih]
  | case5 c s1 s2 rest hdecoded ih =>
      intro met
      rw [percentDecode, hdecoded, findDecodedFrom, restartMatch]
      simp only [hdecoded, Option.getD_none, Option.isSome_none, Bool.false_eq_true, ↓reduceIte, ih]

theorem findDecodedString_iff {suspicious : List UInt8} (hmem : suspicious ∈ suspiciousStrings)
    (str : List UInt8) :
    findDecodedString str suspicious = true ↔ Reaches suspicious (percentDecode str) := by
  have hne : suspicious ≠ [] := by
    rintro rfl
    exact absurd hmem (by decide)
  rw [findDecodedString, findDecodedFrom_eq, restartMatch_iff hne]

theorem any_findDecodedString_iff (str : List UInt8) :
    suspiciousStrings.any (findDecodedString str) = true ↔ Caught str := by
  rw [List.any_eq_true, Caught]
  exact exists_congr fun suspicious => and_congr_right fun hmem => findDecodedString_iff hmem str

theorem Caught.suspicious {str : List UInt8} (hcaught : Caught str) : Suspicious str := by
  obtain ⟨suspicious, hmem, hreaches⟩ := hcaught
  exact ⟨suspicious, hmem, hreaches.occurs⟩

/-! ### The delivered string -/

/-- The characters that a suspicious string starts with, and the one that starts an escape. -/
def telltales : List UInt8 := [37, 60, 80]

theorem mem_percentDecode {c : UInt8} {str : List UInt8} :
    c ∈ percentDecode str → c ∈ str ∨ 37 ∈ str := by
  induction str using percentDecode.induct with
  | case1 => exact .inl
  | case2 => exact .inl
  | case3 => exact .inl
  | case4 d s1 s2 rest hexv hdecoded ih =>
      intro _
      have hpercent : d = 37 := by
        by_contra hne
        rw [if_neg hne] at hdecoded
        exact absurd hdecoded nofun
      exact .inr (hpercent ▸ List.mem_cons_self)
  | case5 d s1 s2 rest hdecoded ih =>
      rw [percentDecode, hdecoded]
      intro hmem
      rcases List.mem_cons.mp hmem with rfl | hmem
      · exact .inl List.mem_cons_self
      · exact (ih hmem).imp (List.mem_cons_of_mem d) (List.mem_cons_of_mem d)

theorem Suspicious.telltale {str : List UInt8} (hsuspicious : Suspicious str) :
    ∃ c ∈ telltales, c ∈ str := by
  obtain ⟨suspicious, hmem, hoccurs⟩ := hsuspicious
  have hhead : ∀ suspicious ∈ suspiciousStrings, ∃ c ∈ telltales, c ∈ suspicious := by decide
  obtain ⟨c, htelltale, hc⟩ := hhead suspicious hmem
  rcases mem_percentDecode (hoccurs.subset hc) with hstr | hpercent
  · exact ⟨c, htelltale, hstr⟩
  · exact ⟨37, by decide, hpercent⟩

theorem mem_of_mem_removalNotice {c : UInt8} {size : Nat} (hmem : c ∈ removalNotice size) :
    c ∈ 32 :: errIn := by
  obtain ⟨k, _, rfl⟩ := List.mem_map.mp hmem
  rw [List.getD_eq_getElem?_getD]
  cases hk : errIn[k]? with
  | none => exact List.mem_cons_self
  | some d => exact List.mem_cons_of_mem _ (List.mem_of_getElem? hk)

theorem telltale_not_mem_removalNotice {c : UInt8} (htelltale : c ∈ telltales) (size : Nat) :
    c ∉ removalNotice size := by
  have hother : ∀ c ∈ telltales, c ∉ 32 :: errIn := by decide +kernel
  exact fun hmem => hother c htelltale (mem_of_mem_removalNotice hmem)

theorem mem_blankControls {c : UInt8} {str : List UInt8} (hc : 32 ≤ c) (hmem : c ∈ str)
    (type : Nat) : c ∈ blankControls type str := by
  unfold blankControls
  split
  · exact List.mem_map.mpr ⟨c, hmem, if_neg fun hcontrol => absurd hcontrol.1 (UInt8.not_lt.mpr hc)⟩
  · exact hmem

theorem blankControls_ne_removalNotice {str : List UInt8} (hsuspicious : Suspicious str)
    (type size : Nat) : blankControls type str ≠ removalNotice size := by
  obtain ⟨c, htelltale, hmem⟩ := hsuspicious.telltale
  have hprintable : ∀ c ∈ telltales, (32 : UInt8) ≤ c := by decide +kernel
  intro heq
  exact telltale_not_mem_removalNotice htelltale size
    (heq ▸ mem_blankControls (hprintable c htelltale) hmem type)

theorem blankControls_removalNotice (type size : Nat) :
    blankControls type (removalNotice size) = removalNotice size := by
  have hprintable : ∀ c ∈ 32 :: errIn, ¬(c < 0x20 ∧ 0 < c) := by decide +kernel
  unfold blankControls
  split
  · calc (removalNotice size).map (fun c => if c < 0x20 ∧ 0 < c then 0x20 else c)
        = (removalNotice size).map id :=
          List.map_congr_left fun c hmem => if_neg (hprintable c (mem_of_mem_removalNotice hmem))
      _ = removalNotice size := List.map_id _
  · rfl

theorem dropSuspicious_of_caught {str : List UInt8} (hcaught : Caught str) :
    dropSuspicious str = removalNotice str.length :=
  if_pos ((any_findDecodedString_iff str).mpr hcaught)

theorem dropSuspicious_of_not_caught {str : List UInt8} (hcaught : ¬Caught str) :
    dropSuspicious str = str :=
  if_neg fun hany => hcaught ((any_findDecodedString_iff str).mp hany)

/-- What becomes of any text. -/
theorem filtered_iff (type : Nat) (str : List UInt8) :
    Filtered type str (blankControls type (dropSuspicious str)) ↔ (Suspicious str → Caught str) := by
  by_cases hcaught : Caught str
  · rw [dropSuspicious_of_caught hcaught, blankControls_removalNotice]
    exact iff_of_true ⟨fun _ => rfl, fun hnot => absurd hcaught.suspicious hnot⟩ fun _ => hcaught
  · rw [dropSuspicious_of_not_caught hcaught]
    constructor
    · intro hfiltered hsuspicious
      exact absurd (hfiltered.1 hsuspicious) (blankControls_ne_removalNotice hsuspicious _ _)
    · intro hfound
      exact ⟨fun hsuspicious => absurd (hfound hsuspicious) hcaught, fun _ => rfl⟩

theorem getTlvString_eq_some {type : Nat} {packet : Packet} {reader : Reader}
    {delivered : List UInt8} (hread : (getTlvString type packet reader).1 = some delivered) :
    delivered = blankControls type (dropSuspicious (tlvStringData packet reader)) := by
  unfold getTlvString at hread
  split at hread
  · cases hread
  · dsimp only at hread
    split at hread
    · cases hread
    · split at hread
      · cases hread
      · exact (Option.some.inj hread).symm

/-- **Bomb filter.** A string that is read is replaced by the warning, or delivered up to its control
characters, as its decoded text requires, if and only if a text with suspicious strings has one of
them behind broken beginnings of that one. -/
theorem getTlvString_filtered_iff {type : Nat} {packet : Packet} {reader : Reader}
    {delivered : List UInt8} (hread : (getTlvString type packet reader).1 = some delivered) :
    Filtered type (tlvStringData packet reader) delivered ↔
      (Suspicious (tlvStringData packet reader) → Caught (tlvStringData packet reader)) := by
  rw [getTlvString_eq_some hread]
  exact filtered_iff type (tlvStringData packet reader)

/-- A record of type `0` with the text `text`, at the start of the packet. -/
def stringRecord (text : List UInt8) : Packet :=
  ⟨fun i => ([0, 0, 0, 0, 0, UInt8.ofNat (6 + text.length)] ++ text).getD i 0, 6 + text.length⟩

/-- `"a<!e"` is found, and replaced by the first four characters of the warning. -/
theorem getTlvString_filtered_iff_sample :
    (getTlvString 0 (stringRecord [97, 60, 33, 101]) ⟨0, []⟩).1 = some [42, 42, 42, 42] ∧
      Filtered 0 [97, 60, 33, 101] [42, 42, 42, 42] := by
  have hread : (getTlvString 0 (stringRecord [97, 60, 33, 101]) ⟨0, []⟩).1 =
      some [42, 42, 42, 42] := by decide
  have hdata : tlvStringData (stringRecord [97, 60, 33, 101]) ⟨0, []⟩ = [97, 60, 33, 101] := by
    decide
  have hbroken : Broken [60, 33, 101] [(97 : UInt8)] := ⟨0, 97, by decide, by decide, rfl⟩
  have hfiltered := (getTlvString_filtered_iff hread).mpr fun _ => by
    rw [hdata]
    refine ⟨[60, 33, 101], by decide, [[97]], [], fun piece hmem => ?_, rfl⟩
    rw [List.mem_singleton.mp hmem]
    exact hbroken
  rw [hdata] at hfiltered
  exact ⟨hread, hfiltered⟩

/-- `"<<!e"` is delivered as it is. -/
theorem getTlvString_filtered_counterexample :
    ¬∀ (type : Nat) (packet : Packet) (reader : Reader) (delivered : List UInt8),
      (getTlvString type packet reader).1 = some delivered →
        Filtered type (tlvStringData packet reader) delivered := by
  intro hall
  have hread : (getTlvString 0 (stringRecord [60, 60, 33, 101]) ⟨0, []⟩).1 =
      some [60, 60, 33, 101] := by decide
  have hdata : tlvStringData (stringRecord [60, 60, 33, 101]) ⟨0, []⟩ = [60, 60, 33, 101] := by
    decide
  have hfiltered := hall 0 _ _ _ hread
  rw [hdata] at hfiltered
  have hsuspicious : Suspicious [60, 60, 33, 101] := ⟨[60, 33, 101], by decide, [60], [], rfl⟩
  have hnotice := hfiltered.1 hsuspicious
  exact absurd hnotice (by decide)

end RetroShare.Serialiser
