import RetroShare.Util.Proof.UrlStages

/-!
# Printing and parsing a URL

A printed URL is parsed back, with three exceptions. The parser takes the last character off a host
in brackets; and it looks for nothing at the last position of the text, so that a host of one
character is lost when nothing follows it, and the path `/` when nothing follows that.
-/

namespace RetroShare.RsUrl

open Search

/-- Parsing what is printed gives the same URL. -/
def RoundTrips (url : RsUrl) : Prop := fromString url.toString = some url

/-- There is no query and no fragment. -/
def EndsWithPath (url : RsUrl) : Prop := url.query.isEmpty = true ∧ url.fragment = []

/-- The host is not an IPv6 address, nor is it one character with nothing behind it, and the path is
not the single separator with nothing behind it. -/
def Survives (url : RsUrl) : Prop :=
  ipv6Separator ∉ url.host ∧
    ¬(url.host.length = 1 ∧ url.port = none ∧ url.path = [] ∧ url.EndsWithPath) ∧
    ¬(url.path = [pathSeparator] ∧ url.EndsWithPath)

/-! ### The host -/

section Host

variable {url : RsUrl}

/-- The text of a URL whose host is printed as that. -/
def printed (url : RsUrl) (host : Str) : Str :=
  joined (url.scheme ++ schemeSeparator) host (portText url.port)
    (urlEncode url.path [pathSeparator]) (queryText url.query) (fragmentText url.fragment)

theorem toString_eq_printed (url : RsUrl) : url.toString = printed url (wrapHost url.host) := by
  simp [RsUrl.toString, printed, joined]

/-- Behind the host. -/
def tailText (url : RsUrl) : Str :=
  portText url.port ++ (urlEncode url.path [pathSeparator] ++
    (queryText url.query ++ fragmentText url.fragment))

theorem printed_eq (url : RsUrl) (host : Str) :
    printed url host = (url.scheme ++ schemeSeparator) ++ (host ++ url.tailText) := rfl

/-- The scheme is found, and the rest is left to the parser of the host. -/
theorem fromString_printed (hscheme : ¬schemeSeparator <:+: url.scheme) (host : Str) :
    fromString (printed url host) =
      parseHost (printed url host) ((printed url host).length - 1)
        (url.scheme ++ schemeSeparator).length (ofScheme url.scheme) := by
  have htext : printed url host = url.scheme ++ (schemeSeparator ++ (host ++ url.tailText)) := by
    rw [printed_eq, List.append_assoc]
  have hlength : (printed url host).length =
      url.scheme.length + (3 + (host ++ url.tailText).length) := by
    rw [htext, List.length_append, List.length_append]
    rfl
  have hbegin : url.scheme.length + 3 = (url.scheme ++ schemeSeparator).length := by
    rw [List.length_append]
    rfl
  have hfind := findText_scheme hscheme (host ++ url.tailText)
  rw [← htext] at hfind
  unfold fromString
  rw [hfind]
  dsimp only
  rw [if_neg (by omega), hbegin, htext, List.take_left]

theorem tailText_eq_nil : url.tailText = [] ↔
    url.port = none ∧ url.path = [] ∧ url.EndsWithPath := by
  have hport : portText url.port = [] ↔ url.port = none := by
    cases url.port
    · exact iff_of_true rfl rfl
    · exact iff_of_false (List.cons_ne_nil _ _) (Option.some_ne_none _)
  unfold tailText EndsWithPath
  rw [List.append_eq_nil_iff, List.append_eq_nil_iff, hport, urlEncode_eq_nil,
    (length_after_path url.query url.fragment).1]

/-- One character behind the host can only be the path `/`. -/
theorem tailText_long (hurl : BySetters url) (hne : url.tailText ≠ [])
    (hsingle : ¬(url.path = [pathSeparator] ∧ url.EndsWithPath)) : 1 < url.tailText.length := by
  obtain ⟨hnothing, hlong⟩ := length_after_path url.query url.fragment
  unfold tailText at hne ⊢
  rw [List.length_append, List.length_append]
  by_cases hlast : queryText url.query ++ fragmentText url.fragment = []
  · rw [hlast, List.length_nil, Nat.add_zero]
    cases hport : url.port with
    | some port =>
        have hdigits : 0 < (decimal port.toNat).length :=
          List.length_pos_iff.mpr (decimal_ne_nil _)
        rw [portText, List.length_cons]
        omega
    | none =>
        rw [hport, hlast, List.append_nil] at hne
        have hpath : url.path ≠ [] := fun hnil => hne (urlEncode_eq_nil.mpr hnil)
        have hone : ¬(urlEncode url.path [pathSeparator]).length ≤ 1 := fun hle =>
          hsingle ⟨single_of_length_encoded (hurl.path.resolve_left hpath) hle, hnothing.mp hlast⟩
        omega
  · have := hlong hlast
    omega

theorem length_printed (url : RsUrl) (host : Str) : (printed url host).length =
    (url.scheme ++ schemeSeparator).length + (host.length + url.tailText.length) := by
  rw [printed_eq]
  simp only [List.length_append]

/-- A name is cut out, unless it is one character at the end. -/
theorem parseHost_name (hurl : BySetters url) (hname : IsName url.host)
    (hlong : 1 < url.host.length + url.tailText.length) :
    parseHost (printed url url.host) ((printed url url.host).length - 1)
      (url.scheme ++ schemeSeparator).length (ofScheme url.scheme) =
    parsePort (printed url url.host) ((printed url url.host).length - 1)
      (url.scheme ++ schemeSeparator).length
      (if url.tailText = [] then none
        else some ((url.scheme ++ schemeSeparator).length + url.host.length))
      { ofScheme url.scheme with host := url.host } := by
  obtain ⟨hne, hbracket, hfree⟩ := hname
  have hlength := length_printed url url.host
  have hend : findHostEnd (printed url url.host) (url.scheme ++ schemeSeparator).length =
      if url.tailText = [] then none
      else some ((url.scheme ++ schemeSeparator).length + url.host.length) :=
    (hurl.parts hfree).findHostEnd_joined (url.scheme ++ schemeSeparator)
  have hbetween := between_of_part (url.scheme ++ schemeSeparator) url.host url.tailText
  have hfirst : (printed url url.host)[(url.scheme ++ schemeSeparator).length]? =
      url.host.head? := by
    rw [printed_eq, List.getElem?_append_right (Nat.le_refl _), Nat.sub_self,
      List.getElem?_append_left (List.length_pos_iff.mpr hne), List.head?_eq_getElem?]
  unfold parseHost
  rw [if_neg (by omega), hfirst, if_neg hbracket]
  dsimp only
  rw [hend]
  rw [← printed_eq] at hbetween
  rw [hbetween]

/-- Behind the host, the port, the path, the query and the fragment are read. -/
theorem parsePort_tail (hurl : BySetters url) (hname : IsName url.host)
    (hsingle : ¬(url.path = [pathSeparator] ∧ url.EndsWithPath)) :
    parsePort (printed url url.host) ((printed url url.host).length - 1)
      (url.scheme ++ schemeSeparator).length
      (if url.tailText = [] then none
        else some ((url.scheme ++ schemeSeparator).length + url.host.length))
      { ofScheme url.scheme with host := url.host } = some url := by
  have hlength := length_printed url url.host
  have hparts := hurl.parts hname.2.2
  split
  · next hnil =>
      obtain ⟨hport, hpath, hquery, hfragment⟩ := tailText_eq_nil.mp hnil
      have hnone := Std.ExtTreeMap.isEmpty_iff.mp hquery
      obtain ⟨scheme, host, port, path, query, fragment⟩ := url
      dsimp only at hport hpath hnone hfragment
      subst hport hpath hnone hfragment
      rfl
  · next hne =>
      have hlong := tailText_long hurl hne hsingle
      have hdrop : (printed url url.host).drop
          ((url.scheme ++ schemeSeparator).length + url.host.length) = url.tailText := by
        rw [printed_eq, ← List.append_assoc, ← List.length_append, List.drop_left]
      have hscan : scanPort url.tailText = url.port := hparts.scanPort_tail
      unfold parsePort
      dsimp only
      rw [if_neg (by omega), hdrop, hscan]
      exact hparts.parsePath_joined _ hurl.query hurl.path hsingle ⟨rfl, rfl, rfl⟩

/-- A host in brackets loses its last character. -/
theorem parseHost_brackets {host : Str} (before rest : Str) (hne : host ≠ [])
    (hfree : ipv6WrapClose ∉ host) (read : RsUrl) :
    let urlStr := before ++ (ipv6WrapOpen :: (host ++ ipv6WrapClose :: rest))
    parseHost urlStr (urlStr.length - 1) before.length read =
      parsePort urlStr (urlStr.length - 1) (before.length + 1)
        (some (before.length + 1 + host.length + 1)) { read with host := host.dropLast } := by
  intro urlStr
  have hpos := List.length_pos_iff.mpr hne
  have hlength : urlStr.length = before.length + (host.length + rest.length + 2) := by
    simp only [urlStr, List.length_append, List.length_cons]
    omega
  have hfirst : urlStr[before.length]? = some ipv6WrapOpen := by
    rw [List.getElem?_append_right (Nat.le_refl _), Nat.sub_self]
    rfl
  have htext : urlStr = (before ++ [ipv6WrapOpen]) ++ (host ++ ipv6WrapClose :: rest) := by
    simp [urlStr]
  have hbegin : before.length + 1 = (before ++ [ipv6WrapOpen]).length := by simp
  have hclose := find_segment_at (before ++ [ipv6WrapOpen]) hfree
    (.inr rfl : Segment ipv6WrapClose (ipv6WrapClose :: rest))
    (List.not_mem_nil : ipv6WrapClose ∉ [])
  rw [List.append_nil, if_neg (List.cons_ne_nil _ _), ← hbegin, ← htext] at hclose
  have hbetween : between urlStr (before.length + 1)
      (some (before.length + 1 + host.length - 1)) = host.dropLast := by
    have hcount : before.length + 1 + host.length - 1 - (before.length + 1) =
        host.length - 1 := by
      omega
    unfold between
    dsimp only
    rw [hcount, htext, hbegin, List.drop_left, List.dropLast_eq_take,
      List.take_append_of_le_length (by omega)]
  unfold parseHost
  rw [if_neg (by omega), hfirst, if_pos rfl]
  dsimp only
  rw [if_neg (by omega), hclose]
  dsimp only
  rw [if_neg (by omega), hbetween]

end Host

/-! ### The round trip -/

theorem IsBareIpv6.wrapHost_eq {host : Str} (hhost : IsBareIpv6 host) :
    wrapHost host = ipv6WrapOpen :: (host ++ [ipv6WrapClose]) ∧ ipv6WrapClose ∉ host := by
  have hplain : ∀ c : UInt8, c = ipv6WrapOpen ∨ c = ipv6WrapClose → c ∉ host := by
    intro c hc hmem
    have hbracket : hexValue c = none ∧ c ≠ ipv6Separator ∧ c ≠ '.'.toUInt8 := by
      rcases hc with rfl | rfl <;> decide
    rcases hhost.2 c hmem with hhex | heq | heq
    · rw [hbracket.1] at hhex
      cases hhex
    · exact hbracket.2.1 heq
    · exact hbracket.2.2 heq
  refine ⟨if_pos ⟨hhost.1, fun hhead => ?_⟩, hplain _ (.inr rfl)⟩
  exact hplain _ (.inl rfl) (List.mem_of_mem_head? hhead)

theorem IsName.wrapHost_eq {host : Str} (hhost : IsName host) :
    wrapHost host = host ∧ ipv6Separator ∉ host := by
  have hfree : ipv6Separator ∉ host := hhost.2.2 _ (by decide)
  exact ⟨if_neg fun hwrap => hfree hwrap.1, hfree⟩

theorem roundTrips_of_survives {url : RsUrl} (hurl : BySetters url) (hsurvives : Survives url) :
    RoundTrips url := by
  obtain ⟨hcolon, hshort, hsingle⟩ := hsurvives
  have hname : IsName url.host := hurl.host.resolve_right fun hipv6 => hcolon hipv6.1
  have hpos := List.length_pos_iff.mpr hname.1
  have hlong : 1 < url.host.length + url.tailText.length := by
    by_cases hnil : url.tailText = []
    · have hone : url.host.length ≠ 1 := fun hone =>
        hshort ⟨hone, tailText_eq_nil.mp hnil⟩
      omega
    · have := List.length_pos_iff.mpr hnil
      omega
  unfold RoundTrips
  rw [toString_eq_printed, hname.wrapHost_eq.1, fromString_printed hurl.scheme,
    parseHost_name hurl hname hlong, parsePort_tail hurl hname hsingle]

/-- An IPv6 address comes back one character shorter. -/
theorem not_roundTrips_of_ipv6 {url : RsUrl} (hurl : BySetters url)
    (hhost : IsBareIpv6 url.host) : ¬RoundTrips url := by
  intro hround
  have hne : url.host ≠ [] := List.ne_nil_of_mem hhost.1
  have htext : printed url (wrapHost url.host) = (url.scheme ++ schemeSeparator) ++
      (ipv6WrapOpen :: (url.host ++ ipv6WrapClose :: url.tailText)) := by
    rw [printed_eq, hhost.wrapHost_eq.1]
    simp
  unfold RoundTrips at hround
  rw [toString_eq_printed, fromString_printed hurl.scheme, htext,
    parseHost_brackets _ url.tailText hne hhost.wrapHost_eq.2] at hround
  have hshorter := congrArg List.length (parsePort_keeps hround)
  rw [List.length_dropLast] at hshorter
  have := List.length_pos_iff.mpr hne
  omega

/-- A host of one character at the end of the text is not read. -/
theorem not_roundTrips_of_short {url : RsUrl} (hurl : BySetters url) (hname : IsName url.host)
    (hone : url.host.length = 1) (hnil : url.tailText = []) : ¬RoundTrips url := by
  intro hround
  have hlength := length_printed url url.host
  rw [hnil, List.length_nil, hone] at hlength
  unfold RoundTrips at hround
  rw [toString_eq_printed, hname.wrapHost_eq.1, fromString_printed hurl.scheme] at hround
  unfold parseHost at hround
  rw [if_pos (by omega)] at hround
  have hhost := congrArg RsUrl.host (Option.some.inj hround)
  exact hname.1 hhost.symm

/-- Nor is the path `/`. -/
theorem not_roundTrips_of_single {url : RsUrl} (hurl : BySetters url) (hname : IsName url.host)
    (hpath : url.path = [pathSeparator]) (hlast : url.EndsWithPath) : ¬RoundTrips url := by
  intro hround
  have hencoded : urlEncode url.path [pathSeparator] = [pathSeparator] := by
    rw [hpath]
    decide
  have hbehind := (length_after_path url.query url.fragment).1.mpr hlast
  have htail : url.tailText = portText url.port ++ [pathSeparator] := by
    rw [tailText, hencoded, hbehind]
    rfl
  have hne : url.tailText ≠ [] := by
    rw [htail]
    simp
  have hpos := List.length_pos_iff.mpr hname.1
  have hpos' := List.length_pos_iff.mpr hne
  have hlength := length_printed url url.host
  have htailLength : url.tailText.length = (portText url.port).length + 1 := by
    rw [htail, List.length_append]
    rfl
  have hencodedNe : urlEncode url.path [pathSeparator] ≠ [] := by
    rw [hencoded]
    exact List.cons_ne_nil _ _
  have hfind : find (printed url url.host) pathSeparator (url.scheme ++ schemeSeparator).length =
      some ((url.scheme ++ schemeSeparator).length + (url.host ++ portText url.port).length) :=
    ((hurl.parts hname.2.2).find_path _).trans (if_neg hencodedNe)
  have hbefore : (url.host ++ portText url.port).length =
      url.host.length + (portText url.port).length := List.length_append
  have hread : url.path = [] := by
    unfold RoundTrips at hround
    rw [toString_eq_printed, hname.wrapHost_eq.1, fromString_printed hurl.scheme,
      parseHost_name hurl hname (by omega), if_neg hne] at hround
    unfold parsePort at hround
    dsimp only at hround
    split at hround
    · have hpath' := congrArg RsUrl.path (Option.some.inj hround)
      exact hpath'.symm
    · have hpath' := parsePath_single hfind (by omega) hround
      exact hpath'
  rw [hpath] at hread
  cases hread

theorem survives_of_roundTrips {url : RsUrl} (hurl : BySetters url) (hround : RoundTrips url) :
    Survives url := by
  have hnotIpv6 : ¬IsBareIpv6 url.host := fun hipv6 => not_roundTrips_of_ipv6 hurl hipv6 hround
  have hname : IsName url.host := hurl.host.resolve_right hnotIpv6
  refine ⟨hname.wrapHost_eq.2, ?_, ?_⟩
  · rintro ⟨hone, hbehind⟩
    exact not_roundTrips_of_short hurl hname hone (tailText_eq_nil.mpr hbehind) hround
  · rintro ⟨hpath, hlast⟩
    exact not_roundTrips_of_single hurl hname hpath hlast hround

end RetroShare.RsUrl
