import RetroShare.Util.Proof.RsUrl
import RetroShare.Util.SockAddrText

/-!
# Printing and parsing a socket address

The text of an IPv4 address is read back. That of an IPv6 address reaches `inet_pton` without its
last character.
-/

namespace RetroShare

open RsUrl Search

/-- The IP in its IPv6 form, and the port. -/
def SockAddr.endpoint : SockAddr → Option (Ipv6 × BitVec 16)
  | .inet ip port => some (ip.toIpv6, port)
  | .inet6 ip port => some (ip, port)
  | .other _ => none

/-- The text of an address is read back as that address, whatever was stored there before. -/
def SockAddr.RoundTrips (inet : Inet) (addr : SockAddr) : Prop :=
  ∀ oldPort, (SockAddr.ofText inet (addr.toText inet) oldPort).bind SockAddr.endpoint =
    addr.endpoint

/-! ### IPv4 -/

theorem mem_ntoa {ip : Ipv4} {c : UInt8} (hmem : c ∈ ip.ntoa) :
    isDigit c = true ∨ c = '.'.toUInt8 := by
  have hdot : ∀ c, c ∈ ascii "." → c = '.'.toUInt8 := fun c hc => List.mem_singleton.mp hc
  simp only [Ipv4.ntoa, List.mem_append] at hmem
  rcases hmem with (((((h | h) | h) | h) | h) | h) | h
  · exact .inl (isDigit_of_mem_decimal h)
  · exact .inr (hdot c h)
  · exact .inl (isDigit_of_mem_decimal h)
  · exact .inr (hdot c h)
  · exact .inl (isDigit_of_mem_decimal h)
  · exact .inr (hdot c h)
  · exact .inl (isDigit_of_mem_decimal h)

theorem isName_ntoa (ip : Ipv4) : IsName ip.ntoa := by
  have hfree : ∀ c : UInt8, isDigit c = false → c ≠ '.'.toUInt8 → c ∉ ip.ntoa := by
    intro c hdigit hdot hmem
    rcases mem_ntoa hmem with h | h
    · rw [hdigit] at h
      cases h
    · exact hdot h
  refine ⟨?_, fun hhead => ?_, fun c hc => ?_⟩
  · simp [Ipv4.ntoa, ascii]
  · exact hfree ipv6WrapOpen (by decide) (by decide) (List.mem_of_mem_head? hhead)
  · obtain ⟨_, hdigit, _, _, _, _, _, hdot⟩ := of_mem_separators hc
    exact hfree c hdigit hdot

theorem SockAddr.roundTrips_inet {inet : Inet} {ip : Ipv4} (port : BitVec 16)
    (hpton6 : inet.pton6 ip.ntoa = none) (hpton4 : inet.pton4 ip.ntoa = some ip) :
    SockAddr.RoundTrips inet (.inet ip port) := by
  have hsetters : BySetters (endpointUrl (ascii "ipv4") ip.ntoa port) :=
    ⟨(by decide : ¬schemeSeparator <:+: ascii "ipv4"), .inl (isName_ntoa ip), .inl rfl,
      fun field hmem => absurd hmem List.not_mem_nil⟩
  have hsurvives : Survives (endpointUrl (ascii "ipv4") ip.ntoa port) := by
    refine ⟨(isName_ntoa ip).wrapHost_eq.2, ?_, ?_⟩
    · rintro ⟨_, hport, _⟩
      cases hport
    · rintro ⟨hpath, _⟩
      cases hpath
  have hround := roundTrips_of_survives hsetters hsurvives
  have hpton : inet.pton ip.ntoa = some ip.toIpv6 := by
    unfold Inet.pton
    rw [hpton6, hpton4]
    rfl
  intro oldPort
  unfold SockAddr.toText SockAddr.ofText
  dsimp only
  rw [hround, Option.bind_eq_bind, Option.bind_some]
  dsimp only [endpointUrl]
  rw [hpton]
  rfl

/-! ### IPv6 -/

/-- Where no separator is left, nothing more is read. -/
theorem parsePath_nothing {urlStr : Str} {endI hostBeginI : Nat} (read : RsUrl)
    (hpath : pathSeparator ∉ urlStr.drop hostBeginI)
    (hquery : querySeparator ∉ urlStr.drop hostBeginI)
    (hfragment : fragmentSeparator ∉ urlStr.drop hostBeginI) :
    parsePath urlStr endI hostBeginI read = some read := by
  unfold parsePath parseQuery parseFragment
  rw [find_eq_none hpath, find_eq_none hquery, find_eq_none hfragment]

/-- Behind the opening bracket there is no other separator than the colon. -/
theorem RsUrl.IsBareIpv6.free {host : Str} (hhost : IsBareIpv6 host) (port : Nat) :
    ∀ c ∈ separators, c ≠ portSeparator →
      c ∉ host ++ ipv6WrapClose :: portSeparator :: decimal port := by
  intro c hc hne hmem
  obtain ⟨_, _, hhex, _, _, _, hclose, hdot⟩ := of_mem_separators hc
  rw [List.mem_append, List.mem_cons, List.mem_cons] at hmem
  rcases hmem with hmem | hmem | hmem | hmem
  · rcases hhost.2 c hmem with h | h | h
    · rw [hhex] at h
      cases h
    · exact hne h
    · exact hdot h
  · exact hclose hmem
  · exact hne hmem
  · exact decimal_free hc hmem

/-- The port at the end of the text. -/
theorem scanPort_last (port : UInt16) :
    scanPort (portSeparator :: decimal port.toNat) = some port := by
  have hscan := scanPort_portText port
    (fun c hc => absurd hc (Option.not_mem_none c) : ∀ c ∈ ([] : Str).head?, ¬isDigit c)
  rwa [List.append_nil] at hscan

/-- The URL of an IPv6 endpoint is parsed into one with a shorter host. -/
theorem fromString_ipv6 {host : Str} (hhost : IsBareIpv6 host) (port : BitVec 16) :
    fromString (endpointUrl (ascii "ipv6") host port).toString =
      some (endpointUrl (ascii "ipv6") host.dropLast port) := by
  have hne : host ≠ [] := List.ne_nil_of_mem hhost.1
  obtain ⟨hwrap, hclose⟩ := hhost.wrapHost_eq
  have htail : (endpointUrl (ascii "ipv6") host port).tailText =
      portSeparator :: decimal (UInt16.ofBitVec port).toNat := List.append_nil _
  have hfree := hhost.free (UInt16.ofBitVec port).toNat
  have hscan := scanPort_last (UInt16.ofBitVec port)
  have hdigits := List.length_pos_iff.mpr (decimal_ne_nil (UInt16.ofBitVec port).toNat)
  generalize decimal (UInt16.ofBitVec port).toNat = digits at htail hfree hscan hdigits
  generalize hbefore : ascii "ipv6" ++ schemeSeparator = before
  generalize htext : before ++ (ipv6WrapOpen :: (host ++ ipv6WrapClose :: portSeparator ::
    digits)) = text
  have hprinted : printed (endpointUrl (ascii "ipv6") host port)
      (wrapHost (endpointUrl (ascii "ipv6") host port).host) = text := by
    have hwrap' : wrapHost (endpointUrl (ascii "ipv6") host port).host =
        ipv6WrapOpen :: (host ++ [ipv6WrapClose]) := hwrap
    rw [printed_eq, hwrap', htail, ← htext, ← hbefore]
    simp [endpointUrl, ofScheme]
  have hlength : text.length = before.length + (host.length + digits.length + 3) := by
    rw [← htext]
    simp only [List.length_append, List.length_cons]
    omega
  have hinside : text.drop (before.length + 1) =
      host ++ ipv6WrapClose :: portSeparator :: digits := by
    rw [← htext]
    exact (drop_of_part before ipv6WrapOpen _).1
  have hbehind : text.drop (before.length + 1 + host.length + 1) = portSeparator :: digits := by
    rw [Nat.add_assoc, ← List.drop_drop, hinside]
    exact (drop_of_part host ipv6WrapClose _).1
  have hhostRead := parseHost_brackets before (portSeparator :: digits) hne hclose
    (ofScheme (ascii "ipv6"))
  dsimp only at hhostRead
  rw [htext] at hhostRead
  rw [toString_eq_printed, fromString_printed (by decide : ¬schemeSeparator <:+: ascii "ipv6"),
    hprinted]
  have hbegin : ((endpointUrl (ascii "ipv6") host port).scheme ++ schemeSeparator).length =
      before.length := congrArg List.length hbefore
  have hscheme : (endpointUrl (ascii "ipv6") host port).scheme = ascii "ipv6" := rfl
  rw [hbegin, hscheme, hhostRead]
  unfold parsePort
  dsimp only
  rw [if_neg (by omega), hbehind, hscan]
  refine parsePath_nothing _ ?_ ?_ ?_ <;> rw [hinside]
  · exact hfree _ (by decide) (by decide)
  · exact hfree _ (by decide) (by decide)
  · exact hfree _ (by decide) (by decide)

/-- What reaches `inet_pton` is the text without its last character. -/
theorem SockAddr.roundTrips_inet6 {inet : Inet} {ip : Ipv6} (port : BitVec 16)
    (hntop6 : IsBareIpv6 (inet.ntop6 ip)) :
    SockAddr.RoundTrips inet (.inet6 ip port) ↔
      inet.pton (inet.ntop6 ip).dropLast = some ip := by
  have hread : ∀ oldPort, (SockAddr.ofText inet ((SockAddr.inet6 ip port).toText inet)
      oldPort).bind SockAddr.endpoint =
        (inet.pton (inet.ntop6 ip).dropLast).map fun ip => (ip, port) := by
    intro oldPort
    unfold SockAddr.ofText SockAddr.toText
    dsimp only
    rw [fromString_ipv6 hntop6, Option.bind_eq_bind, Option.bind_some]
    dsimp only [endpointUrl]
    cases inet.pton (inet.ntop6 ip).dropLast <;> rfl
  unfold SockAddr.RoundTrips
  constructor
  · intro hround
    have hthere := (hread port).symm.trans (hround port)
    obtain ⟨ip', hpton, heq⟩ := Option.map_eq_some_iff.mp hthere
    rw [hpton]
    exact congrArg (fun endpoint => some endpoint.1) heq
  · intro hpton oldPort
    rw [hread, hpton]
    rfl

/-! ### The round trips -/

/-- **URLs and socket addresses come back from their text**, exactly under these conditions. -/
theorem roundTrips_iff (url : RsUrl) (inet : Inet) (ip4 : Ipv4) (ip6 : Ipv6) (port : BitVec 16) :
    (BySetters url → (RoundTrips url ↔ Survives url)) ∧
      (inet.pton6 ip4.ntoa = none → inet.pton4 ip4.ntoa = some ip4 →
        SockAddr.RoundTrips inet (.inet ip4 port)) ∧
      (IsBareIpv6 (inet.ntop6 ip6) →
        (SockAddr.RoundTrips inet (.inet6 ip6 port) ↔
          inet.pton (inet.ntop6 ip6).dropLast = some ip6)) := by
  refine ⟨fun hurl => ⟨survives_of_roundTrips hurl, roundTrips_of_survives hurl⟩, ?_, ?_⟩
  · exact fun hpton6 hpton4 => SockAddr.roundTrips_inet port hpton6 hpton4
  · exact fun hntop6 => SockAddr.roundTrips_inet6 port hntop6

/-- `http://retro.share:7812/a?k=v%20w#end` -/
def sampleUrl : RsUrl :=
  ⟨ascii "http", ascii "retro.share", some 7812, ascii "/a",
    (∅ : OrderedMap Str Str).insert (ascii "k") (ascii "v w"), ascii "end"⟩

/-- What the C library does for 10.0.0.1 and ::1. -/
def sampleInet : Inet where
  ntop6 := fun _ => ascii "::1"
  pton6 := fun text =>
    if text = ascii "::1" then some fun i => if i = 7 then 1 else 0
    else if text = ascii "::" then some fun _ => 0
    else none
  pton4 := fun text => if text = ascii "10.0.0.1" then some ⟨10, 0, 0, 1⟩ else none

set_option maxRecDepth 2000 in
theorem bySetters_sampleUrl : BySetters sampleUrl :=
  ⟨by decide, .inl ⟨by decide, by decide, by decide⟩, .inr rfl, by
    intro field hmem
    have hfields : sampleUrl.query.toList = [(ascii "k", ascii "v w")] := by decide
    rw [hfields, List.mem_singleton] at hmem
    subst hmem
    exact (by decide : ∀ c ∈ ascii "k", isUnreserved c = true)⟩

set_option maxRecDepth 2000 in
theorem roundTrips_sample : RoundTrips sampleUrl ∧
    SockAddr.RoundTrips sampleInet (.inet ⟨10, 0, 0, 1⟩ 7812) ∧
      ¬SockAddr.RoundTrips sampleInet (.inet6 (fun i => if i = 7 then 1 else 0) 7812) := by
  have hall := roundTrips_iff sampleUrl sampleInet ⟨10, 0, 0, 1⟩ (fun i => if i = 7 then 1 else 0) 7812
  refine ⟨(hall.1 bySetters_sampleUrl).mpr ⟨by decide, ?_, ?_⟩,
    hall.2.1 (by decide) (by decide), fun hround => ?_⟩
  · rintro ⟨hone, _⟩
    cases hone
  · rintro ⟨_, _, hfragment⟩
    cases hfragment
  · have hpton := (hall.2.2 ⟨by decide, by decide⟩).mp hround
    have hlost : sampleInet.pton (ascii "::") = some fun _ => 0 := rfl
    have hdifferent := congrFun (Option.some.inj (hlost.symm.trans hpton)) 7
    cases hdifferent

set_option maxRecDepth 2000 in
/-- The host of `ipv6://[::1]` comes back as `::`. -/
theorem roundTrips_counterexample : ¬∀ url : RsUrl, BySetters url → RoundTrips url := by
  intro hall
  have hurl : BySetters ⟨ascii "ipv6", ascii "::1", none, [], ∅, []⟩ :=
    ⟨by decide, .inr ⟨by decide, by decide⟩, .inl rfl,
      fun field hmem => absurd hmem List.not_mem_nil⟩
  have hhost := congrArg (fun url => url.map RsUrl.host) (hall _ hurl)
  have hread : (fromString (RsUrl.toString ⟨ascii "ipv6", ascii "::1", none, [], ∅, []⟩)).map
      RsUrl.host = some (ascii "::") := by
    decide
  rw [hread] at hhost
  cases hhost

end RetroShare
