import RetroShare.Util.Proof.UrlQuery

/-!
# The parts of a printed URL

Every part of a printed URL is empty or begins with its own separator, and holds none of the others.
So the searches of the parser find the parts, whichever of them are there.
-/

namespace RetroShare.RsUrl

open Search

def separators : List UInt8 := [portSeparator, pathSeparator, querySeparator, fragmentSeparator]

/-- A separator is no character of a host, a number, a field or an escape. -/
theorem of_mem_separators {c : UInt8} (hc : c ∈ separators) :
    isUnreserved c = false ∧ isDigit c = false ∧ hexValue c = none ∧ c ≠ percent ∧
      c ≠ queryAssign ∧ c ≠ queryFieldSep ∧ c ≠ ipv6WrapClose ∧ c ≠ '.'.toUInt8 := by
  simp only [separators, List.mem_cons, List.not_mem_nil, or_false] at hc
  rcases hc with rfl | rfl | rfl | rfl <;>
    exact ⟨rfl, rfl, rfl, by decide, by decide, by decide, by decide, by decide⟩

/-- Printed parts after the scheme. -/
structure Parts (host port path query fragment : Str) : Prop where
  host_free : ∀ c ∈ separators, c ∉ host
  port_begins : Segment portSeparator port
  port_free : ∀ c ∈ separators, c ≠ portSeparator → c ∉ port
  path_begins : Segment pathSeparator path
  path_free : ∀ c ∈ separators, c ≠ pathSeparator → c ∉ path
  query_begins : Segment querySeparator query
  query_free : ∀ c ∈ separators, c ≠ querySeparator → c ∉ query
  fragment_begins : Segment fragmentSeparator fragment
  fragment_free : ∀ c ∈ separators, c ≠ fragmentSeparator → c ∉ fragment

section Searches

variable {host port path query fragment : Str}

/-- The text of the parts, after what comes before them. -/
def joined (before host port path query fragment : Str) : Str :=
  before ++ (host ++ (port ++ (path ++ (query ++ fragment))))

variable (hparts : Parts host port path query fragment) (before : Str)

include hparts

theorem Parts.find_port : find (joined before host port path query fragment) portSeparator
    before.length = if port = [] then none else some (before.length + host.length) := by
  apply find_segment_at before (hparts.host_free _ (by decide)) hparts.port_begins
  simp only [List.mem_append, not_or]
  exact ⟨hparts.path_free _ (by decide) (by decide), hparts.query_free _ (by decide) (by decide),
    hparts.fragment_free _ (by decide) (by decide)⟩

theorem Parts.find_path : find (joined before host port path query fragment) pathSeparator
    before.length =
      if path = [] then none else some (before.length + (host ++ port).length) := by
  unfold joined
  rw [← List.append_assoc host]
  apply find_segment_at before _ hparts.path_begins
  · simp only [List.mem_append, not_or]
    exact ⟨hparts.query_free _ (by decide) (by decide),
      hparts.fragment_free _ (by decide) (by decide)⟩
  · simp only [List.mem_append, not_or]
    exact ⟨hparts.host_free _ (by decide), hparts.port_free _ (by decide) (by decide)⟩

theorem Parts.find_query : find (joined before host port path query fragment) querySeparator
    before.length =
      if query = [] then none else some (before.length + (host ++ (port ++ path)).length) := by
  unfold joined
  rw [← List.append_assoc port, ← List.append_assoc host]
  apply find_segment_at before _ hparts.query_begins (hparts.fragment_free _ (by decide) (by decide))
  simp only [List.mem_append, not_or]
  exact ⟨hparts.host_free _ (by decide), hparts.port_free _ (by decide) (by decide),
    hparts.path_free _ (by decide) (by decide)⟩

theorem Parts.find_fragment : find (joined before host port path query fragment)
    fragmentSeparator before.length =
      if fragment = [] then none
      else some (before.length + (host ++ (port ++ (path ++ query))).length) := by
  have hfree : fragmentSeparator ∉ host ++ (port ++ (path ++ query)) := by
    simp only [List.mem_append, not_or]
    exact ⟨hparts.host_free _ (by decide), hparts.port_free _ (by decide) (by decide),
      hparts.path_free _ (by decide) (by decide), hparts.query_free _ (by decide) (by decide)⟩
  have hfind := find_segment_at before hfree hparts.fragment_begins
    (List.not_mem_nil : fragmentSeparator ∉ [])
  unfold joined
  rw [← List.append_assoc path, ← List.append_assoc port, ← List.append_assoc host]
  rw [List.append_nil] at hfind
  exact hfind

/-- Without the host and the port the same holds of what is left. -/
theorem Parts.withoutHost : Parts [] [] path query fragment where
  host_free := fun _ _ => List.not_mem_nil
  port_begins := .inl rfl
  port_free := fun _ _ _ => List.not_mem_nil
  path_begins := hparts.path_begins
  path_free := hparts.path_free
  query_begins := hparts.query_begins
  query_free := hparts.query_free
  fragment_begins := hparts.fragment_begins
  fragment_free := hparts.fragment_free

/-- The host ends where the first part begins that is there. -/
theorem Parts.findHostEnd_joined :
    findHostEnd (joined before host port path query fragment) before.length =
      if port ++ (path ++ (query ++ fragment)) = [] then none
      else some (before.length + host.length) := by
  unfold findHostEnd
  rw [hparts.find_port, hparts.find_path, hparts.find_query, hparts.find_fragment]
  by_cases hport : port = [] <;> by_cases hpath : path = [] <;> by_cases hquery : query = [] <;>
    by_cases hfragment : fragment = [] <;>
    simp [hport, hpath, hquery, hfragment, earlier, Option.merge]

/-- The path ends where the next part begins that is there. -/
theorem Parts.findPathEnd_joined :
    earlier (find (joined before host port path query fragment) querySeparator
        (before ++ (host ++ port)).length)
      (find (joined before host port path query fragment) fragmentSeparator
        (before ++ (host ++ port)).length) =
      if query ++ fragment = [] then none
      else some ((before ++ (host ++ port)).length + path.length) := by
  have htext : joined before host port path query fragment =
      joined (before ++ (host ++ port)) [] [] path query fragment := by
    simp [joined]
  rw [htext, hparts.withoutHost.find_query, hparts.withoutHost.find_fragment]
  by_cases hquery : query = [] <;> by_cases hfragment : fragment = [] <;>
    simp [hquery, hfragment, earlier, Option.merge]

end Searches

end RetroShare.RsUrl
