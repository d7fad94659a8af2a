import RetroShare.Util.Proof.UrlCoding

/-!
# Query fields

The loop over the fields of a query, on the text that the printer makes of a map.
-/

namespace RetroShare.RsUrl

open Search

/-- A key that needs no encoding. -/
def PlainKey (key : Str) : Prop := ∀ c ∈ key, isUnreserved c = true

theorem PlainKey.notMem {key : Str} (hkey : PlainKey key) {c : UInt8}
    (hc : isUnreserved c = false) : c ∉ key := by
  intro hmem
  rw [hkey c hmem] at hc
  cases hc

theorem notMem_urlEncode {str ignoreChars : Str} {c : UInt8} (hc : isUnreserved c = false)
    (hpercent : c ≠ percent) (hignore : c ∉ ignoreChars) : c ∉ urlEncode str ignoreChars := by
  intro hmem
  rcases mem_urlEncode hmem with hplain | hcase | hcase
  · rw [hplain] at hc
    cases hc
  · exact hpercent hcase
  · exact hignore hcase

/-! ### Fields -/

/-- The fields with separators between them. -/
def joinFields : List (Str × Str) → Str
  | [] => []
  | [field] => field.1 ++ queryAssign :: urlEncode field.2 []
  | field :: fields => field.1 ++ queryAssign :: (urlEncode field.2 [] ++
      queryFieldSep :: joinFields fields)

/-- What follows a field in the text. -/
def afterField : List (Str × Str) → Str
  | [] => []
  | fields => queryFieldSep :: joinFields fields

theorem joinFields_cons (field : Str × Str) (fields : List (Str × Str)) :
    joinFields (field :: fields) =
      field.1 ++ queryAssign :: (urlEncode field.2 [] ++ afterField fields) := by
  cases fields with
  | nil => rw [joinFields, afterField, List.append_nil]
  | cons next fields => simp [joinFields, afterField]

/-- The printer takes the last separator away again. -/
theorem dropLast_flatMap_queryField (fields : List (Str × Str)) :
    (fields.flatMap queryField).dropLast = joinFields fields := by
  induction fields with
  | nil => rfl
  | cons field fields ih =>
      rw [joinFields_cons, List.flatMap_cons]
      cases fields with
      | nil => simp [queryField, afterField, List.dropLast_append_of_ne_nil, List.dropLast_cons_of_ne_nil]
      | cons next fields =>
          have hne : (next :: fields).flatMap queryField ≠ [] := by
            simp [queryField]
          rw [List.dropLast_append_of_ne_nil hne, ih]
          simp [queryField, afterField]

/-! ### The loop -/

section Loop

variable {endI : Nat} {query : OrderedMap Str Str}

/-- One pass of the loop, at a field of the text. -/
theorem find_queryFieldSep (front : Str) (field : Str × Str) (fields : List (Str × Str)) :
    find (front ++ joinFields (field :: fields)) queryFieldSep (front.length + field.1.length) =
      if fields = [] then none
      else some (front.length + field.1.length + 1 + (urlEncode field.2 []).length) := by
  have hvalue : queryFieldSep ∉ queryAssign :: urlEncode field.2 [] := by
    rw [List.mem_cons, not_or]
    exact ⟨by decide, notMem_urlEncode (by decide) (by decide) List.not_mem_nil⟩
  have hsegment : Segment queryFieldSep (afterField fields) := by
    cases fields
    · exact .inl rfl
    · exact .inr rfl
  have hnil : afterField fields = [] ↔ fields = [] := by
    cases fields <;> simp [afterField]
  have hfind := find_segment hvalue hsegment (List.not_mem_nil : queryFieldSep ∉ [])
  rw [joinFields_cons, ← List.append_assoc front, ← List.length_append,
    ← Nat.add_zero (front ++ field.1).length, find_append]
  rw [List.append_nil, List.cons_append] at hfind
  rw [hfind]
  simp only [hnil]
  split
  · rfl
  · simp only [Option.map_some, List.length_cons, List.length_append]
    congr 1
    omega

/-- The search goes over the separator before a field. -/
theorem find_queryAssign (front : Str) {separator : Str} (hseparator : queryAssign ∉ separator)
    {field : Str × Str} (hkey : PlainKey field.1) (fields : List (Str × Str)) :
    find (front ++ (separator ++ joinFields (field :: fields))) queryAssign front.length =
      some (front.length + (separator.length + field.1.length)) := by
  have hfree : queryAssign ∉ separator ++ field.1 := by
    rw [List.mem_append, not_or]
    exact ⟨hseparator, hkey.notMem (by decide)⟩
  have hfind := find_segment hfree
    (.inr rfl : Segment queryAssign (queryAssign :: (urlEncode field.2 [] ++ afterField fields)))
    (List.not_mem_nil : queryAssign ∉ [])
  have happend := find_append front (separator ++ joinFields (field :: fields)) queryAssign 0
  rw [List.append_nil, List.append_assoc, List.length_append,
    if_neg (List.cons_ne_nil _ _)] at hfind
  rw [joinFields_cons] at happend ⊢
  rw [Nat.add_zero, hfind] at happend
  exact happend

theorem parseFields_last {qStr : Str} {kPos assPos : Nat}
    (hend : find qStr queryFieldSep assPos = none) :
    parseFields endI qStr kPos assPos query =
      (urlDecode (between qStr (assPos + 1) none)).map fun value =>
        query.insertIfNew (between qStr kPos (some assPos)) value := by
  rw [parseFields]
  split
  · rw [hend]
    cases urlDecode (between qStr (assPos + 1) none) <;> rfl
  · next hsome =>
      rw [hend] at hsome
      cases hsome

theorem parseFields_next {qStr : Str} {kPos assPos vEnd next : Nat}
    (hend : find qStr queryFieldSep assPos = some vEnd)
    (hnext : find qStr queryAssign vEnd = some next) (hlt : next < endI) :
    parseFields endI qStr kPos assPos query =
      (urlDecode (between qStr (assPos + 1) (some vEnd))).bind fun value =>
        parseFields endI qStr (vEnd + 1) next
          (query.insertIfNew (between qStr kPos (some assPos)) value) := by
  rw [parseFields]
  split
  · next hnone =>
      rw [hend] at hnone
      cases hnone
  · next vEnd' hsome =>
      cases hend.symm.trans hsome
      split
      · next hnone =>
          rw [hnext] at hnone
          cases hnone
      · next next' hsome' =>
          cases hnext.symm.trans hsome'
          rw [hend]
          simp only [if_pos hlt]
          rfl

theorem between_append (front middle back : Str) :
    between (front ++ (middle ++ back)) front.length (some (front.length + middle.length)) =
      middle := by
  unfold between
  dsimp only
  rw [List.drop_left, Nat.add_sub_cancel_left, List.take_left]

/-- The key of a field, and its value, as the loop cuts them out. -/
theorem between_field (front : Str) (field : Str × Str) (fields : List (Str × Str)) :
    between (front ++ joinFields (field :: fields)) front.length
        (some (front.length + field.1.length)) = field.1 ∧
      between (front ++ joinFields (field :: fields)) (front.length + field.1.length + 1)
        (if fields = [] then none
          else some (front.length + field.1.length + 1 + (urlEncode field.2 []).length)) =
        urlEncode field.2 [] := by
  rw [joinFields_cons]
  refine ⟨between_append .., ?_⟩
  have htext : front ++ (field.1 ++ queryAssign :: (urlEncode field.2 [] ++ afterField fields)) =
      (front ++ field.1 ++ [queryAssign]) ++ (urlEncode field.2 [] ++ afterField fields) := by
    simp
  have hlength : front.length + field.1.length + 1 =
      (front ++ field.1 ++ [queryAssign]).length := by
    simp [Nat.add_assoc]
  rw [htext, hlength]
  split
  · next hlast =>
      subst hlast
      unfold between
      rw [List.drop_left, afterField, List.append_nil]
  · exact between_append ..

/-- **The loop reads every field**, and keeps the first of each key. -/
theorem parseFields_joinFields (fields : List (Str × Str)) :
    ∀ (field : Str × Str) (front : Str) (query : OrderedMap Str Str),
      (∀ field' ∈ field :: fields, PlainKey field'.1) →
      (front ++ joinFields (field :: fields)).length ≤ endI →
        parseFields endI (front ++ joinFields (field :: fields)) front.length
          (front.length + field.1.length) query =
            some ((field :: fields).foldl (fun read field => read.insertIfNew field.1 field.2)
              query) := by
  induction fields with
  | nil =>
      intro field front query _ _
      have hend := find_queryFieldSep front field []
      obtain ⟨hkey, hvalue⟩ := between_field front field []
      rw [if_pos rfl] at hend hvalue
      rw [parseFields_last hend, hvalue, urlDecode_urlEncode List.not_mem_nil, hkey]
      rfl
  | cons next fields ih =>
      intro field front query hkeys hlength
      have hend := find_queryFieldSep front field (next :: fields)
      obtain ⟨hkey, hvalue⟩ := between_field front field (next :: fields)
      rw [if_neg (List.cons_ne_nil _ _)] at hend hvalue
      generalize hread : front ++ (field.1 ++ queryAssign :: urlEncode field.2 []) = read
      have htext : front ++ joinFields (field :: next :: fields) =
          read ++ ([queryFieldSep] ++ joinFields (next :: fields)) := by
        rw [← hread, joinFields_cons]
        simp [afterField]
      have hvEnd : front.length + field.1.length + 1 + (urlEncode field.2 []).length =
          read.length := by
        rw [← hread]
        simp only [List.length_append, List.length_cons]
        omega
      have hkeys' : ∀ field' ∈ next :: fields, PlainKey field'.1 := fun field' hmem =>
        hkeys field' (List.mem_cons_of_mem _ hmem)
      have hnext := find_queryAssign read (by decide : queryAssign ∉ [queryFieldSep])
        (hkeys' next List.mem_cons_self) fields
      rw [htext] at hlength hend hkey hvalue ⊢
      rw [hvEnd] at hend hvalue
      have hlt := Nat.lt_of_lt_of_le (find_lt hnext) hlength
      rw [parseFields_next hend hnext hlt, hvalue, urlDecode_urlEncode List.not_mem_nil, hkey,
        Option.bind_some]
      have hrest := ih next (read ++ [queryFieldSep]) (query.insertIfNew field.1 field.2) hkeys'
      have hread' : (read ++ [queryFieldSep]).length = read.length + 1 := List.length_append
      rw [List.append_assoc, hread', Nat.add_assoc] at hrest
      exact hrest hlength

/-- The fields that are printed for a map are read back as that map. -/
theorem parseFieldsOf_joinFields (query : OrderedMap Str Str) (hne : query.toList ≠ [])
    (hkeys : ∀ field ∈ query.toList, PlainKey field.1)
    (hlength : (joinFields query.toList).length ≤ endI) :
    parseFieldsOf endI (joinFields query.toList) ∅ = some query := by
  obtain ⟨field, fields, hfields⟩ := List.exists_cons_of_ne_nil hne
  have hfind := find_queryAssign [] (List.not_mem_nil : queryAssign ∉ [])
    (hkeys field (hfields ▸ List.mem_cons_self)) fields
  have hread := parseFields_joinFields fields field [] ∅ (hfields ▸ hkeys) (hfields ▸ hlength)
  have hmap := OrderedMap.foldl_insertIfNew_toList query
  rw [hfields] at hmap
  unfold parseFieldsOf
  rw [hfields]
  rw [List.nil_append, List.nil_append, List.length_nil, Nat.zero_add, Nat.zero_add] at hfind
  rw [List.nil_append, List.length_nil, Nat.zero_add, hmap] at hread
  rw [hfind]
  exact hread

end Loop

end RetroShare.RsUrl
