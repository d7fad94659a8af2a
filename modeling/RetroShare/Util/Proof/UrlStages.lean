import RetroShare.Util.Proof.UrlParts

/-!
# Stages of the parser

What is printed for a URL that the setters build, and what each stage of the parser makes of it.
-/

namespace RetroShare.RsUrl

open Search

/-! ### URLs that the setters build -/

/-- A name or an IPv4 address. -/
def IsName (host : Str) : Prop :=
  host ≠ [] ∧ host.head? ≠ some ipv6WrapOpen ∧ ∀ c ∈ separators, c ∉ host

/-- An IPv6 address without brackets. -/
def IsBareIpv6 (host : Str) : Prop :=
  ipv6Separator ∈ host ∧
    ∀ c ∈ host, (hexValue c).isSome ∨ c = ipv6Separator ∨ c = '.'.toUInt8

structure BySetters (url : RsUrl) : Prop where
  scheme : ¬schemeSeparator <:+: url.scheme
  host : IsName url.host ∨ IsBareIpv6 url.host
  path : url.path = [] ∨ url.path.head? = some pathSeparator
  query : ∀ field ∈ url.query.toList, PlainKey field.1

/-! ### What is printed -/

theorem urlEncode_free {str : Str} {c : UInt8} (hc : c ∈ separators) :
    c ∉ urlEncode str [] := by
  obtain ⟨hreserved, _, _, hpercent, _⟩ := of_mem_separators hc
  exact notMem_urlEncode hreserved hpercent List.not_mem_nil

theorem decimal_free {n : Nat} {c : UInt8} (hc : c ∈ separators) : c ∉ decimal n := by
  intro hmem
  have hdigit := isDigit_of_mem_decimal hmem
  rw [(of_mem_separators hc).2.1] at hdigit
  cases hdigit

theorem portText_begins (port : Option UInt16) : Segment portSeparator (portText port) := by
  cases port
  · exact .inl rfl
  · exact .inr rfl

theorem portText_free (port : Option UInt16) {c : UInt8} (hc : c ∈ separators)
    (hne : c ≠ portSeparator) : c ∉ portText port := by
  cases port with
  | none => exact List.not_mem_nil
  | some port =>
      rw [portText, List.mem_cons, not_or]
      exact ⟨hne, decimal_free hc⟩

theorem path_begins {path : Str} (hpath : path = [] ∨ path.head? = some pathSeparator) :
    Segment pathSeparator (urlEncode path [pathSeparator]) := by
  cases hpath with
  | inl hnil =>
      subst hnil
      exact .inl rfl
  | inr hhead =>
      obtain ⟨rest, rfl⟩ := List.head?_eq_some_iff.mp hhead
      rw [urlEncode_cons]
      exact .inr rfl

theorem path_free {path : Str} {c : UInt8} (hc : c ∈ separators) (hne : c ≠ pathSeparator) :
    c ∉ urlEncode path [pathSeparator] := by
  obtain ⟨hreserved, _, _, hpercent, _⟩ := of_mem_separators hc
  refine notMem_urlEncode hreserved hpercent ?_
  rwa [List.mem_singleton]

theorem queryText_begins (query : OrderedMap Str Str) :
    Segment querySeparator (queryText query) := by
  unfold queryText
  split
  · exact .inl rfl
  · exact .inr rfl

theorem queryText_free {query : OrderedMap Str Str}
    (hkeys : ∀ field ∈ query.toList, PlainKey field.1) {c : UInt8} (hc : c ∈ separators)
    (hne : c ≠ querySeparator) : c ∉ queryText query := by
  obtain ⟨hreserved, _, _, _, hassign, hsep, _⟩ := of_mem_separators hc
  unfold queryText
  split
  · exact List.not_mem_nil
  · rw [List.mem_cons, not_or]
    refine ⟨hne, fun hmem => ?_⟩
    obtain ⟨field, hfield, hmem⟩ := List.mem_flatMap.mp (List.mem_of_mem_dropLast hmem)
    simp only [queryField, List.mem_append, List.mem_singleton] at hmem
    rcases hmem with ((hkey | hcase) | hvalue) | hcase
    · exact (hkeys field hfield).notMem hreserved hkey
    · exact hassign hcase
    · exact urlEncode_free hc hvalue
    · exact hsep hcase

theorem fragmentText_begins (fragment : Str) :
    Segment fragmentSeparator (fragmentText fragment) := by
  unfold fragmentText
  split
  · exact .inl rfl
  · exact .inr rfl

theorem fragmentText_free {fragment : Str} {c : UInt8} (hc : c ∈ separators)
    (hne : c ≠ fragmentSeparator) : c ∉ fragmentText fragment := by
  unfold fragmentText
  split
  · exact List.not_mem_nil
  · rw [List.mem_cons, not_or]
    exact ⟨hne, urlEncode_free hc⟩

/-- A URL without brackets around its host is printed in parts. -/
theorem BySetters.parts {url : RsUrl} (hurl : BySetters url) {host : Str}
    (hhost : ∀ c ∈ separators, c ∉ host) :
    Parts host (portText url.port) (urlEncode url.path [pathSeparator]) (queryText url.query)
      (fragmentText url.fragment) where
  host_free := hhost
  port_begins := portText_begins url.port
  port_free := fun _ => portText_free url.port
  path_begins := path_begins hurl.path
  path_free := fun _ => path_free
  query_begins := queryText_begins url.query
  query_free := fun _ => queryText_free hurl.query
  fragment_begins := fragmentText_begins url.fragment
  fragment_free := fun _ => fragmentText_free

/-! ### Stages of the parser -/

/-- What is behind the first character of a later part, and where the text ends. -/
theorem drop_of_part (front : Str) (c : UInt8) (rest : Str) :
    (front ++ c :: rest).drop (front.length + 1) = rest ∧
      (front ++ c :: rest).length - 1 = front.length + rest.length := by
  have hsplit : front ++ c :: rest = (front ++ [c]) ++ rest := by simp
  refine ⟨?_, by simp⟩
  rw [hsplit]
  exact List.drop_left' (by simp)

section Stages

variable {host port path : Str} {query : OrderedMap Str Str} {fragment : Str} {read : RsUrl}

variable (read) in
theorem Parts.parseFragment_joined {queryPart : Str}
    (hparts : Parts host port path queryPart (fragmentText fragment)) (before : Str)
    (hread : read.fragment = []) :
    parseFragment (joined before host port path queryPart (fragmentText fragment))
      ((joined before host port path queryPart (fragmentText fragment)).length - 1) before.length
      read = some { read with fragment := fragment } := by
  have hfind := hparts.find_fragment before
  rw [← List.length_append] at hfind
  unfold parseFragment
  rw [hfind]
  by_cases hempty : fragment = []
  · rw [hempty, fragmentText, if_pos rfl, if_pos rfl, ← hread]
  · have htext : fragmentText fragment = fragmentSeparator :: urlEncode fragment [] :=
      if_neg hempty
    have hlong : 0 < (urlEncode fragment []).length := by
      rw [List.length_pos_iff, ne_eq, urlEncode_eq_nil]
      exact hempty
    have hjoined : joined before host port path queryPart (fragmentText fragment) =
        (before ++ (host ++ (port ++ (path ++ queryPart)))) ++
          fragmentSeparator :: urlEncode fragment [] := by
      rw [htext]
      simp [joined]
    obtain ⟨hdrop, hlength⟩ := drop_of_part (before ++ (host ++ (port ++ (path ++ queryPart))))
      fragmentSeparator (urlEncode fragment [])
    rw [hjoined, hlength, htext, if_neg (List.cons_ne_nil _ _)]
    dsimp only
    rw [if_neg (by omega), hdrop, urlDecode_urlEncode List.not_mem_nil]
    rfl

/-- The text of a part, up to the next part if there is one. -/
theorem between_of_part (front part back : Str) :
    between (front ++ (part ++ back)) front.length
      (if back = [] then none else some (front.length + part.length)) = part := by
  split
  · next hback =>
      rw [hback, List.append_nil]
      exact List.drop_left
  · exact between_append ..

/-- The query and the fragment. -/
theorem Parts.parseQuery_joined
    (hparts : Parts host port path (queryText query) (fragmentText fragment)) (before : Str)
    (hkeys : ∀ field ∈ query.toList, PlainKey field.1) (hquery : read.query = ∅)
    (hread : read.fragment = []) :
    parseQuery (joined before host port path (queryText query) (fragmentText fragment))
      ((joined before host port path (queryText query) (fragmentText fragment)).length - 1)
      before.length read = some { read with query := query, fragment := fragment } := by
  have hfind := hparts.find_query before
  have hfragment := hparts.find_fragment before
  rw [← List.length_append] at hfind hfragment
  unfold parseQuery
  rw [hfind]
  by_cases hempty : query.isEmpty = true
  · have htext : queryText query = [] := if_pos hempty
    have hnone : query = ∅ := Std.ExtTreeMap.isEmpty_iff.mp hempty
    rw [if_pos htext]
    dsimp only
    rw [hparts.parseFragment_joined read before hread, hnone, ← hquery]
  · have hne : query.toList ≠ [] := by
      rw [ne_eq, ← List.isEmpty_iff, Std.ExtTreeMap.isEmpty_toList]
      exact hempty
    have htext : queryText query = querySeparator :: joinFields query.toList := by
      rw [← dropLast_flatMap_queryField]
      exact if_neg hempty
    generalize hfront : before ++ (host ++ (port ++ path)) = front at hfind
    have hjoined : joined before host port path (queryText query) (fragmentText fragment) =
        front ++ querySeparator :: (joinFields query.toList ++ fragmentText fragment) := by
      rw [htext, ← hfront]
      simp [joined]
    have hqueryEnd : (before ++ (host ++ (port ++ (path ++ queryText query)))).length =
        front.length + 1 + (joinFields query.toList).length := by
      rw [htext, ← hfront]
      simp only [List.length_append, List.length_cons]
      omega
    have hlength := (drop_of_part front querySeparator
      (joinFields query.toList ++ fragmentText fragment)).2
    have hlong : 0 < (joinFields query.toList).length := by
      obtain ⟨field, fields, hfields⟩ := List.exists_cons_of_ne_nil hne
      rw [hfields, joinFields_cons, List.length_append, List.length_cons]
      omega
    have hbetween := between_of_part (front ++ [querySeparator]) (joinFields query.toList)
      (fragmentText fragment)
    rw [List.append_assoc, List.singleton_append, List.length_append, List.length_singleton]
      at hbetween
    rw [hqueryEnd] at hfragment
    have hrest := hparts.parseFragment_joined { read with query := query } before hread
    rw [hjoined] at hfragment hrest ⊢
    rw [hlength] at hrest ⊢
    rw [List.length_append] at hrest ⊢
    rw [if_neg (htext ▸ List.cons_ne_nil _ _), hfragment]
    dsimp only
    have hfilter : (if fragmentText fragment = [] then none
        else some (front.length + 1 + (joinFields query.toList).length)).filter
          (fun queryEnd => decide (front.length < queryEnd)) =
        if fragmentText fragment = [] then none
        else some (front.length + 1 + (joinFields query.toList).length) := by
      split
      · rfl
      · exact Option.filter_some_pos (decide_eq_true (by omega))
    rw [if_neg (by omega), hfilter, hbetween, hquery,
      parseFieldsOf_joinFields query hne hkeys (by omega)]
    by_cases hlast : fragment = []
    · have hnothing : fragmentText fragment = [] := if_pos hlast
      rw [if_pos hnothing]
      exact congrArg (fun last => some { read with query := query, fragment := last })
        (hread.trans hlast.symm)
    · have hmore : 1 < (fragmentText fragment).length := by
        rw [fragmentText, if_neg hlast, List.length_cons, Nat.lt_add_left_iff_pos,
          List.length_pos_iff, ne_eq, urlEncode_eq_nil]
        exact hlast
      have hthere : fragmentText fragment ≠ [] := by
        rw [ne_eq, ← List.length_eq_zero_iff]
        omega
      rw [if_neg hthere, ← hrest]
      have hbefore : ¬front.length + ((joinFields query.toList).length +
          (fragmentText fragment).length) ≤
            front.length + 1 + (joinFields query.toList).length := by
        omega
      simp only [Option.all_some, decide_eq_true_eq, if_neg hbefore]
      rfl

/-- What comes behind the path has at least two characters, if there is anything. -/
theorem length_after_path (query : OrderedMap Str Str) (fragment : Str) :
    (queryText query ++ fragmentText fragment = [] ↔ query.isEmpty = true ∧ fragment = []) ∧
      (queryText query ++ fragmentText fragment ≠ [] →
        1 < (queryText query ++ fragmentText fragment).length) := by
  have hquery : queryText query = [] ∨ 1 < (queryText query).length := by
    by_cases hempty : query.isEmpty = true
    · exact .inl (if_pos hempty)
    · right
      have hne : query.toList ≠ [] := by
        rw [ne_eq, ← List.isEmpty_iff, Std.ExtTreeMap.isEmpty_toList]
        exact hempty
      obtain ⟨field, fields, hfields⟩ := List.exists_cons_of_ne_nil hne
      rw [queryText, if_neg hempty, dropLast_flatMap_queryField, hfields, joinFields_cons,
        List.length_cons, List.length_append, List.length_cons]
      omega
  have hfragment : fragmentText fragment = [] ∨ 1 < (fragmentText fragment).length := by
    by_cases hempty : fragment = []
    · exact .inl (if_pos hempty)
    · right
      rw [fragmentText, if_neg hempty, List.length_cons, Nat.lt_add_left_iff_pos,
        List.length_pos_iff, ne_eq, urlEncode_eq_nil]
      exact hempty
  constructor
  · rw [List.append_eq_nil_iff]
    refine and_congr ?_ ?_
    · unfold queryText
      split <;> simp_all
    · unfold fragmentText
      split <;> simp_all
  · intro hne
    rw [List.length_append]
    rw [ne_eq, List.append_eq_nil_iff, not_and_or] at hne
    rcases hne with hne | hne
    · have := hquery.resolve_left hne
      omega
    · have := hfragment.resolve_left hne
      omega

theorem single_of_length_encoded {path : Str} (hpath : path.head? = some pathSeparator)
    (hlength : (urlEncode path [pathSeparator]).length ≤ 1) : path = [pathSeparator] := by
  obtain ⟨rest, rfl⟩ := List.head?_eq_some_iff.mp hpath
  have hkept : urlEncode (pathSeparator :: rest) [pathSeparator] =
      pathSeparator :: urlEncode rest [pathSeparator] := by
    rw [urlEncode_cons]
    rfl
  rw [hkept, List.length_cons] at hlength
  have hnil : urlEncode rest [pathSeparator] = [] := List.eq_nil_of_length_eq_zero (by omega)
  rw [urlEncode_eq_nil.mp hnil]

/-- The path, the query and the fragment. -/
theorem Parts.parsePath_joined {path : Str}
    (hparts : Parts host port (urlEncode path [pathSeparator]) (queryText query)
      (fragmentText fragment)) (before : Str)
    (hkeys : ∀ field ∈ query.toList, PlainKey field.1)
    (hpath : path = [] ∨ path.head? = some pathSeparator)
    (hsingle : ¬(path = [pathSeparator] ∧ query.isEmpty = true ∧ fragment = []))
    (hread : read.path = [] ∧ read.query = ∅ ∧ read.fragment = []) :
    parsePath (joined before host port (urlEncode path [pathSeparator]) (queryText query)
        (fragmentText fragment))
      ((joined before host port (urlEncode path [pathSeparator]) (queryText query)
        (fragmentText fragment)).length - 1) before.length read =
      some { read with path := path, query := query, fragment := fragment } := by
  have hfind := hparts.find_path before
  have hend := hparts.findPathEnd_joined before
  have hrest : ∀ read' : RsUrl, read'.query = ∅ → read'.fragment = [] → _ := fun read' hq hf =>
    hparts.parseQuery_joined before hkeys hq hf
  obtain ⟨hnothing, hlong⟩ := length_after_path query fragment
  rw [← List.length_append] at hfind
  unfold parsePath
  rw [hfind]
  by_cases hempty : path = []
  · rw [if_pos (urlEncode_eq_nil.mpr hempty)]
    dsimp only
    rw [hrest read hread.2.1 hread.2.2, hempty, ← hread.1]
  · have hhead := hpath.resolve_left hempty
    have hthere : urlEncode path [pathSeparator] ≠ [] := fun hnil =>
      hempty (urlEncode_eq_nil.mp hnil)
    have hjoined : joined before host port (urlEncode path [pathSeparator]) (queryText query)
        (fragmentText fragment) = (before ++ (host ++ port)) ++
          (urlEncode path [pathSeparator] ++ (queryText query ++ fragmentText fragment)) := by
      simp [joined]
    have hbetween := between_of_part (before ++ (host ++ port)) (urlEncode path [pathSeparator])
      (queryText query ++ fragmentText fragment)
    have hlength : (joined before host port (urlEncode path [pathSeparator]) (queryText query)
        (fragmentText fragment)).length = (before ++ (host ++ port)).length +
          ((urlEncode path [pathSeparator]).length +
            (queryText query ++ fragmentText fragment).length) := by
      rw [hjoined]
      simp only [List.length_append]
    have hnotLast : ¬(joined before host port (urlEncode path [pathSeparator]) (queryText query)
        (fragmentText fragment)).length - 1 ≤ (before ++ (host ++ port)).length := by
      rw [hlength]
      have hposA : 0 < (urlEncode path [pathSeparator]).length := List.length_pos_iff.mpr hthere
      by_cases hlast : queryText query ++ fragmentText fragment = []
      · have hone : ¬(urlEncode path [pathSeparator]).length ≤ 1 := fun hle =>
          hsingle ⟨single_of_length_encoded hhead hle, hnothing.mp hlast⟩
        omega
      · have := hlong hlast
        omega
    rw [if_neg hthere]
    dsimp only
    rw [if_neg hnotLast, hend]
    rw [← hjoined] at hbetween
    rw [hbetween, urlDecode_urlEncode (by decide)]
    by_cases hlast : queryText query ++ fragmentText fragment = []
    · obtain ⟨hquery, hfragment⟩ := hnothing.mp hlast
      rw [if_pos hlast, Std.ExtTreeMap.isEmpty_iff.mp hquery, hfragment, ← hread.2.1, ← hread.2.2]
      rfl
    · have hmore := hlong hlast
      have hbefore : ¬(joined before host port (urlEncode path [pathSeparator]) (queryText query)
          (fragmentText fragment)).length - 1 ≤
            (before ++ (host ++ port)).length + (urlEncode path [pathSeparator]).length := by
        rw [hlength]
        omega
      rw [if_neg hlast]
      simp only [Option.all_some, decide_eq_true_eq, if_neg hbefore]
      exact hrest { read with path := path } hread.2.1 hread.2.2

/-- Behind the port comes a separator. -/
theorem head_after_port {path query fragment : Str} (hpath : Segment pathSeparator path)
    (hquery : Segment querySeparator query) (hfragment : Segment fragmentSeparator fragment) :
    ∀ c ∈ (path ++ (query ++ fragment)).head?,
      c = pathSeparator ∨ c = querySeparator ∨ c = fragmentSeparator := by
  intro c hc
  rw [Option.mem_def] at hc
  rcases hpath with rfl | hpath
  · rcases hquery with rfl | hquery
    · rcases hfragment with rfl | hfragment
      · cases hc
      · cases hfragment.symm.trans hc
        exact .inr (.inr rfl)
    · obtain ⟨rest, rfl⟩ := List.head?_eq_some_iff.mp hquery
      cases hc
      exact .inr (.inl rfl)
  · obtain ⟨rest, rfl⟩ := List.head?_eq_some_iff.mp hpath
    cases hc
    exact .inl rfl

theorem Parts.scanPort_tail {port : Option UInt16} {path queryPart fragmentPart : Str}
    (hparts : Parts host (portText port) path queryPart fragmentPart) :
    scanPort (portText port ++ (path ++ (queryPart ++ fragmentPart))) = port := by
  have hhead := head_after_port hparts.path_begins hparts.query_begins hparts.fragment_begins
  cases port with
  | none =>
      apply scanPort_of_ne
      intro hport
      rcases hhead _ hport with heq | heq | heq <;> exact absurd heq (by decide)
  | some port =>
      apply scanPort_portText
      intro c hc hdigit
      rcases hhead c hc with rfl | rfl | rfl <;> exact absurd hdigit (by decide)

end Stages

/-! ### What a stage leaves alone -/

section Kept

variable {urlStr : Str} {endI hostBeginI : Nat} {read result : RsUrl}

theorem parseFragment_keeps (hresult : parseFragment urlStr endI hostBeginI read = some result) :
    result.host = read.host ∧ result.path = read.path := by
  unfold parseFragment at hresult
  split at hresult
  · cases hresult
    exact ⟨rfl, rfl⟩
  · split at hresult
    · cases hresult
      exact ⟨rfl, rfl⟩
    · obtain ⟨fragment, _, hresult⟩ := Option.bind_eq_some_iff.mp hresult
      cases hresult
      exact ⟨rfl, rfl⟩

theorem parseQuery_keeps (hresult : parseQuery urlStr endI hostBeginI read = some result) :
    result.host = read.host ∧ result.path = read.path := by
  unfold parseQuery at hresult
  split at hresult
  · exact parseFragment_keeps hresult
  · split at hresult
    · exact parseFragment_keeps hresult
    · obtain ⟨query, _, hresult⟩ := Option.bind_eq_some_iff.mp hresult
      dsimp only at hresult
      split at hresult
      · cases hresult
        exact ⟨rfl, rfl⟩
      · have hkept := parseFragment_keeps hresult
        exact hkept

theorem parsePath_keeps (hresult : parsePath urlStr endI hostBeginI read = some result) :
    result.host = read.host := by
  unfold parsePath at hresult
  split at hresult
  · exact (parseQuery_keeps hresult).1
  · split at hresult
    · exact (parseQuery_keeps hresult).1
    · obtain ⟨path, _, hresult⟩ := Option.bind_eq_some_iff.mp hresult
      dsimp only at hresult
      split at hresult
      · cases hresult
        rfl
      · exact (parseQuery_keeps hresult).1

theorem parsePort_keeps {hostEndI : Option Nat}
    (hresult : parsePort urlStr endI hostBeginI hostEndI read = some result) :
    result.host = read.host := by
  unfold parsePort at hresult
  split at hresult
  · cases hresult
    rfl
  · split at hresult
    · cases hresult
      rfl
    · have hkept := parsePath_keeps hresult
      exact hkept

/-- A path whose search ends at the last position is not read. -/
theorem parsePath_single {pathBeginI : Nat}
    (hfind : find urlStr pathSeparator hostBeginI = some pathBeginI) (hlast : endI ≤ pathBeginI)
    (hresult : parsePath urlStr endI hostBeginI read = some result) :
    result.path = read.path := by
  unfold parsePath at hresult
  rw [hfind] at hresult
  dsimp only at hresult
  rw [if_pos hlast] at hresult
  exact (parseQuery_keeps hresult).2

end Kept

/-! ### The scheme -/

/-- The separator that is printed is the first one. -/
theorem findText_scheme {scheme : Str} (hscheme : ¬schemeSeparator <:+: scheme) (rest : Str) :
    findText schemeSeparator (scheme ++ (schemeSeparator ++ rest)) = some scheme.length := by
  apply findText_append
  intro i hi hprefix
  rw [List.drop_append_of_le_length (Nat.le_of_lt hi)] at hprefix
  have hsuffix := List.drop_suffix i scheme
  have hne : scheme.drop i ≠ [] := by
    rw [ne_eq, List.drop_eq_nil_iff]
    omega
  generalize scheme.drop i = left at hprefix hsuffix hne
  match left, hne with
  | [a], _ =>
      obtain ⟨_, hsecond⟩ := List.cons_prefix_cons.mp hprefix
      exact absurd (List.cons_prefix_cons.mp hsecond).1 (by decide)
  | [a, b], _ =>
      obtain ⟨_, hsecond⟩ := List.cons_prefix_cons.mp hprefix
      obtain ⟨_, hthird⟩ := List.cons_prefix_cons.mp hsecond
      exact absurd (List.cons_prefix_cons.mp hthird).1 (by decide)
  | a :: b :: c :: left, _ =>
      apply hscheme
      have hinside : schemeSeparator <+: a :: b :: c :: left := by
        rw [List.cons_append, List.cons_append, List.cons_append] at hprefix
        obtain ⟨ha, hsecond⟩ := List.cons_prefix_cons.mp hprefix
        obtain ⟨hb, hthird⟩ := List.cons_prefix_cons.mp hsecond
        obtain ⟨hc, _⟩ := List.cons_prefix_cons.mp hthird
        exact ⟨left, by rw [← ha, ← hb, ← hc]; rfl⟩
      exact hinside.isInfix.trans hsuffix.isInfix

end RetroShare.RsUrl
