import RetroShare.Turtle.Search

/-!
# The budget of a search request

What has been sent back for a request is compared with what its entry says. Local files are counted one
by one but never cut, and a generic result can be counted but not cut. Everything else keeps within the
budget.
-/

namespace RetroShare.Turtle

open Transition

/-! ### What has been sent back -/

def SearchRequest.IsFileSearch : SearchRequest → Prop
  | .string _ => True
  | .regExp _ => True
  | .generic _ _ _ => False

/-- The hits of the results of the file search. -/
def SearchResult.fileHits : SearchResult → Nat
  | .ft result => result.length
  | .generic _ => 0

/-- The hits that go to a peer for a request. What the services find is not counted. -/
def Sent.hitsFor (id : Nat) (peer : PeerId) : Sent → Nat
  | .request _ => 0
  | .localResult item => if item.requestId = id ∧ item.peerId = peer then item.result.fileHits else 0
  | .forwardedResult item => if item.requestId = id ∧ item.peerId = peer then item.result.hits else 0

def P3Turtle.hitsSent (s : P3Turtle) (id : Nat) (peer : PeerId) : Nat :=
  (s.sent.map (Sent.hitsFor id peer)).sum

/-- The count of an entry is the number of hits that have been sent for it, and no more than allowed. -/
def P3Turtle.InBudget (s : P3Turtle) (id : Nat) (info : TurtleSearchRequestInfo) : Prop :=
  info.resultCount.toNat = s.hitsSent id info.origin ∧
    s.hitsSent id info.origin ≤ info.maxAllowedHits.toNat

/-- Every request of another peer is within its budget. -/
def P3Turtle.WithinBudget (s : P3Turtle) : Prop :=
  ∀ id info, s.searchRequestsOrigins[id]? = some info → info.origin ≠ s.ownId → s.InBudget id info

/-- A list of files fits when the sum does not wrap, a generic result when it need not be cut. -/
def Fits (info : TurtleSearchRequestInfo) : SearchResult → Prop
  | .ft result => info.resultCount.toNat + result.length < 2 ^ 32
  | .generic resultData =>
      info.resultCount.toNat + (SearchResult.generic resultData).hits ≤ info.maxAllowedHits.toNat

/-- No more files are found here than may be sent, what others find fits, and an id is not used again
after it has been forgotten. -/
def Budgeted (s : P3Turtle) : Op → Prop
  | .handleSearchRequest env item =>
      acceptsSearchRequest env item s = true → item.peerId ≠ s.ownId →
        s.hitsSent item.requestId item.peerId = 0 ∧
          (item.request.IsFileSearch →
            (env.search item).length ≤ searchResultMaxHitsFiles.toNat)
  | .handleSearchResult env item =>
      ∀ result info, filterBanned env item.result = some result →
        s.searchRequestsOrigins[item.requestId]? = some info → info.origin ≠ s.ownId →
          info.resultCount < info.maxAllowedHits → Fits info result
  | .autoWash _ => True

theorem hitsSent_append (s : P3Turtle) (more : List Sent) (id : Nat) (peer : PeerId) :
    P3Turtle.hitsSent { s with sent := s.sent ++ more } id peer =
      s.hitsSent id peer + (more.map (Sent.hitsFor id peer)).sum := by
  rw [P3Turtle.hitsSent, List.map_append, List.sum_append]
  rfl

theorem sum_hitsFor_requests (items : List SearchRequestItem) (id : Nat) (peer : PeerId) :
    ((items.map Sent.request).map (Sent.hitsFor id peer)).sum = 0 := by
  rw [List.map_map]
  exact List.sum_map_zero

theorem sum_hitsFor_local (results : List SearchResult) (id id' : Nat) (peer peer' : PeerId) :
    ((results.map fun result => Sent.localResult ⟨peer', id', result⟩).map
        (Sent.hitsFor id peer)).sum =
      if id' = id ∧ peer' = peer then (results.map SearchResult.fileHits).sum else 0 := by
  rw [List.map_map]
  split
  · next hsame =>
    refine congrArg List.sum (List.map_congr_left fun result _ => ?_)
    exact if_pos hsame
  · next hother =>
    rw [← List.sum_map_zero (l := results)]
    refine congrArg List.sum (List.map_congr_left fun result _ => ?_)
    exact if_neg hother

/-! ### The local search -/

theorem Chunks.flatten_push (maxAllowedHits : UInt32) (chunks : Chunks) (info : TurtleFileInfo) :
    (chunks.push maxAllowedHits info).items.flatten = chunks.items.flatten ++ [info] ∧
      (chunks.push maxAllowedHits info).resultCount = chunks.resultCount + 1 := by
  unfold Chunks.push Chunks.items
  cases chunks.resItem with
  | none =>
      dsimp only
      split <;> simp
  | some resItem =>
      dsimp only
      split <;> simp

/-- Every file that is found gets into an item and is counted. -/
theorem Chunks.flatten_foldl (maxAllowedHits : UInt32) (infos : List TurtleFileInfo)
    (chunks : Chunks) :
    (infos.foldl (Chunks.push maxAllowedHits) chunks).items.flatten =
        chunks.items.flatten ++ infos ∧
      (infos.foldl (Chunks.push maxAllowedHits) chunks).resultCount =
        chunks.resultCount + UInt32.ofNat infos.length := by
  induction infos generalizing chunks with
  | nil => simp
  | cons info infos ih =>
      obtain ⟨hitems, hcount⟩ := chunks.flatten_push maxAllowedHits info
      obtain ⟨hitems', hcount'⟩ := ih (chunks.push maxAllowedHits info)
      refine ⟨?_, ?_⟩
      · rw [List.foldl_cons, hitems', hitems, List.append_assoc]
        rfl
      · rw [List.foldl_cons, hcount', hcount, List.length_cons, UInt32.add_assoc, Nat.add_comm,
          UInt32.ofNat_add]
        rfl

theorem sum_fileHits_ft (lists : List (List TurtleFileInfo)) :
    ((lists.map SearchResult.ft).map SearchResult.fileHits).sum = lists.flatten.length := by
  rw [List.map_map, List.length_flatten]
  rfl

/-- The files that a search finds are all sent, however many there are. -/
theorem performLocalSearchFiles_spec (env : Surroundings) (item : SearchRequestItem) :
    ((performLocalSearchFiles env item {}).results.map SearchResult.fileHits).sum =
        (env.search item).length ∧
      (performLocalSearchFiles env item {}).resultCount =
        UInt32.ofNat (env.search item).length ∧
      (performLocalSearchFiles env item {}).maxAllowedHits = searchResultMaxHitsFiles := by
  obtain ⟨hitems, hcount⟩ := Chunks.flatten_foldl searchResultMaxHitsFiles (env.search item)
    { resultCount := 0 }
  refine ⟨?_, ?_, rfl⟩
  · refine (sum_fileHits_ft _).trans (congrArg List.length ?_)
    exact hitems.trans (List.nil_append _)
  · exact hcount.trans (UInt32.zero_add _)

theorem performLocalSearchGeneric_spec (env : Surroundings) (serviceId : UInt16)
    (searchData : List UInt8) :
    ((performLocalSearchGeneric env serviceId searchData {}).results.map SearchResult.fileHits).sum =
        0 ∧
      (performLocalSearchGeneric env serviceId searchData {}).resultCount = 0 := by
  unfold performLocalSearchGeneric
  split
  · split <;> exact ⟨rfl, rfl⟩
  · exact ⟨rfl, rfl⟩

/-- A local search is within its budget exactly when it finds no more files than may be sent. -/
theorem performLocalSearch_iff (env : Surroundings) (item : SearchRequestItem) (before : Nat) :
    ((performLocalSearch env item {}).resultCount.toNat =
          before + ((performLocalSearch env item {}).results.map SearchResult.fileHits).sum ∧
        before + ((performLocalSearch env item {}).results.map SearchResult.fileHits).sum ≤
          (performLocalSearch env item {}).maxAllowedHits.toNat) ↔
      before = 0 ∧ (item.request.IsFileSearch →
        (env.search item).length ≤ searchResultMaxHitsFiles.toNat) := by
  have hfiles : ∀ found, found = performLocalSearchFiles env item {} →
      ((found.resultCount.toNat = before + (found.results.map SearchResult.fileHits).sum ∧
          before + (found.results.map SearchResult.fileHits).sum ≤ found.maxAllowedHits.toNat) ↔
        before = 0 ∧ (True → (env.search item).length ≤ searchResultMaxHitsFiles.toNat)) := by
    rintro found rfl
    obtain ⟨hsum, hcount, hmax⟩ := performLocalSearchFiles_spec env item
    have hlimit : searchResultMaxHitsFiles.toNat = 5000 := rfl
    rw [hsum, hcount, hmax, UInt32.toNat_ofNat', hlimit, true_imp_iff]
    omega
  unfold performLocalSearch SearchRequest.IsFileSearch
  cases item.request with
  | string matchString => exact hfiles _ rfl
  | regExp expr => exact hfiles _ rfl
  | generic serviceId requestType searchData =>
      obtain ⟨hsum, hcount⟩ := performLocalSearchGeneric_spec env serviceId searchData
      dsimp only
      rw [hsum, hcount]
      constructor
      · exact fun hbudget => ⟨hbudget.1.symm, nofun⟩
      · rintro ⟨rfl, _⟩
        exact ⟨rfl, Nat.zero_le _⟩

/-! ### Results of others -/

theorem hits_iterate_pop_ft (result : List TurtleFileInfo) (count : Nat) :
    (SearchResult.pop^[count] (.ft result)).hits = result.length - count := by
  induction count generalizing result with
  | zero => rfl
  | succ count ih =>
      rw [Function.iterate_succ_apply]
      refine (ih result.dropLast).trans ?_
      rw [List.length_dropLast]
      omega

theorem iterate_pop_generic (resultData : List UInt8) (count : Nat) :
    SearchResult.pop^[count] (.generic resultData) = .generic resultData :=
  Function.iterate_fixed rfl count

/-- What is sent on of a result is within the budget exactly when the result fits. -/
theorem chop_iff {info : TurtleSearchRequestInfo} {result rest : SearchResult} {count : UInt32}
    (hchop : chop info result = some (count, rest)) :
    (count.toNat = info.resultCount.toNat + rest.hits ∧
        info.resultCount.toNat + rest.hits ≤ info.maxAllowedHits.toNat) ↔ Fits info result := by
  have hbound := info.resultCount.toNat_lt
  have hbound' := info.maxAllowedHits.toNat_lt
  unfold chop at hchop
  dsimp only at hchop
  split at hchop
  · cases hchop
  · next hbelow =>
    have hsum := UInt32.toNat_add info.resultCount result.count
    rw [ge_iff_le, UInt32.le_iff_toNat_le] at hbelow
    split at hchop
    · next habove =>
      cases hchop
      rw [gt_iff_lt, UInt32.lt_iff_toNat_lt] at habove
      have hcut := UInt32.toNat_sub_of_le _ _ (UInt32.le_iff_toNat_le.mpr habove.le)
      cases result with
      | ft result =>
          have hcount : (SearchResult.ft result).count.toNat = result.length % 2 ^ 32 :=
            UInt32.toNat_ofNat'
          rw [hits_iterate_pop_ft, Fits]
          omega
      | generic resultData =>
          have hhits : (SearchResult.generic resultData).hits =
            (SearchResult.generic resultData).count.toNat := rfl
          rw [iterate_pop_generic, Fits]
          omega
    · next hwithin =>
      cases hchop
      rw [gt_iff_lt, UInt32.lt_iff_toNat_lt] at hwithin
      cases result with
      | ft result =>
          have hcount : (SearchResult.ft result).count.toNat = result.length % 2 ^ 32 :=
            UInt32.toNat_ofNat'
          have hhits : (SearchResult.ft result).hits = result.length := rfl
          rw [Fits]
          omega
      | generic resultData =>
          have hhits : (SearchResult.generic resultData).hits =
            (SearchResult.generic resultData).count.toNat := rfl
          rw [Fits]
          omega

/-! ### Steps -/

/-- An entry is written, and nothing is sent for the other ids. -/
structure Writes (id : Nat) (info : TurtleSearchRequestInfo) (s t : P3Turtle) : Prop where
  ownId : t.ownId = s.ownId
  origins : t.searchRequestsOrigins = s.searchRequestsOrigins.insert id info
  others : ∀ other peer, other ≠ id → t.hitsSent other peer = s.hitsSent other peer

theorem Writes.withinBudget_iff {id : Nat} {info : TurtleSearchRequestInfo} {s t : P3Turtle}
    (hwrites : Writes id info s t) (hbudget : s.WithinBudget) :
    t.WithinBudget ↔ (info.origin ≠ s.ownId → t.InBudget id info) := by
  constructor
  · intro hafter horigin
    refine hafter id info ?_ (hwrites.ownId ▸ horigin)
    rw [hwrites.origins, OrderedMap.lookup_insert_self]
  · intro hentry other info' hlookup horigin
    rw [hwrites.origins, OrderedMap.lookup_insert] at hlookup
    rw [hwrites.ownId] at horigin
    split at hlookup
    · next hsame =>
      cases hlookup
      exact hsame ▸ hentry horigin
    · next hother =>
      rw [P3Turtle.InBudget, hwrites.others other _ (Ne.symm hother)]
      exact hbudget other info' hlookup horigin

/-- The state in which an accepted request leaves the router. -/
theorem handleSearchRequest_spec {env : Surroundings} {item : SearchRequestItem} {s : P3Turtle}
    (haccepts : acceptsSearchRequest env item s = true) :
    ∃ info, Writes item.requestId info s (handleSearchRequest env item s) ∧
      info.origin = item.peerId ∧ info.resultCount = (localSearch env item s).resultCount ∧
      info.maxAllowedHits = (localSearch env item s).maxAllowedHits ∧
      (handleSearchRequest env item s).hitsSent item.requestId item.peerId =
        s.hitsSent item.requestId item.peerId +
          ((localSearch env item s).results.map SearchResult.fileHits).sum := by
  have hsent : ∃ requests : List SearchRequestItem, (handleSearchRequest env item s).sent =
      (s.sent ++ (localSearch env item s).results.map fun result =>
        Sent.localResult ⟨item.peerId, item.requestId, result⟩) ++ requests.map .request := by
    unfold handleSearchRequest
    rw [haccepts, Bool.not_true, if_neg Bool.false_ne_true]
    dsimp only
    split
    · exact ⟨[], (List.append_nil _).symm⟩
    · exact ⟨forwardedRequests env item _, rfl⟩
  obtain ⟨requests, hsent⟩ := hsent
  have hhits : ∀ id peer, (handleSearchRequest env item s).hitsSent id peer =
      s.hitsSent id peer + if item.requestId = id ∧ item.peerId = peer then
        ((localSearch env item s).results.map SearchResult.fileHits).sum else 0 := by
    intro id peer
    rw [P3Turtle.hitsSent, hsent, List.map_append, List.sum_append, sum_hitsFor_requests,
      List.map_append, List.sum_append, sum_hitsFor_local, Nat.add_zero]
    rfl
  refine ⟨{
    origin := item.peerId
    timeStamp := env.now % 2 ^ 32
    depth := item.depth
    resultCount := (localSearch env item s).resultCount
    serviceId := item.serviceId
    maxAllowedHits := (localSearch env item s).maxAllowedHits }, ⟨?_, ?_, ?_⟩, rfl, rfl, rfl, ?_⟩
  · unfold handleSearchRequest
    dsimp only
    split_ifs <;> rfl
  · unfold handleSearchRequest
    rw [haccepts, Bool.not_true, if_neg Bool.false_ne_true]
    dsimp only
    split_ifs <;> rfl
  · intro other peer hother
    rw [hhits, if_neg fun hsame => hother hsame.1.symm, Nat.add_zero]
  · rw [hhits, if_pos ⟨rfl, rfl⟩]

theorem handleSearchRequest_of_refused {env : Surroundings} {item : SearchRequestItem}
    {s : P3Turtle} (hrefuses : acceptsSearchRequest env item s = false) :
    handleSearchRequest env item s = s := by
  unfold handleSearchRequest
  rw [hrefuses, Bool.not_false, if_pos rfl]

theorem handleSearchRequest_iff {env : Surroundings} {item : SearchRequestItem} {s : P3Turtle}
    (hbudget : s.WithinBudget) :
    (handleSearchRequest env item s).WithinBudget ↔
      Budgeted s (.handleSearchRequest env item) := by
  cases haccepts : acceptsSearchRequest env item s with
  | false =>
      rw [handleSearchRequest_of_refused haccepts]
      exact iff_of_true hbudget fun htrue => absurd htrue (by rw [haccepts]; exact Bool.false_ne_true)
  | true =>
      obtain ⟨info, hwrites, horigin, hcount, hmax, hhits⟩ := handleSearchRequest_spec haccepts
      rw [hwrites.withinBudget_iff hbudget, horigin, P3Turtle.InBudget, horigin, hcount, hmax, hhits,
        Budgeted]
      refine ⟨fun hentry _ hpeer => ?_, fun hallowed hpeer => ?_⟩
      · have hlocal := hentry hpeer
        rw [localSearch, if_neg hpeer] at hlocal
        exact (performLocalSearch_iff env item _).mp hlocal
      · rw [localSearch, if_neg hpeer]
        exact (performLocalSearch_iff env item _).mpr (hallowed haccepts hpeer)

theorem routeSearchResult_own {env : Surroundings} {item : SearchResultItem}
    {info : TurtleSearchRequestInfo} {s : P3Turtle} (hown : info.origin = s.ownId) :
    Writes item.requestId { info with resultCount := info.resultCount + item.result.count } s
      (routeSearchResult env item info s) := by
  unfold routeSearchResult
  rw [if_pos hown]
  dsimp only
  split_ifs <;> exact ⟨rfl, rfl, fun _ _ _ => rfl⟩

theorem routeSearchResult_forwarded {env : Surroundings} {item : SearchResultItem}
    {info : TurtleSearchRequestInfo} {s : P3Turtle} (hother : info.origin ≠ s.ownId)
    {resultCount : UInt32} {rest : SearchResult}
    (hchop : chop info item.result = some (resultCount, rest)) :
    Writes item.requestId { info with resultCount } s (routeSearchResult env item info s) ∧
      (routeSearchResult env item info s).hitsSent item.requestId info.origin =
        s.hitsSent item.requestId info.origin + rest.hits := by
  have hhits : ∀ id peer, (routeSearchResult env item info s).hitsSent id peer =
      s.hitsSent id peer +
        if item.requestId = id ∧ info.origin = peer then rest.hits else 0 := by
    intro id peer
    unfold routeSearchResult
    rw [if_neg hother, hchop]
    exact hitsSent_append { s with
      searchRequestsOrigins :=
        s.searchRequestsOrigins.insert item.requestId { info with resultCount } } _ id peer
  refine ⟨⟨?_, ?_, fun other peer hne => ?_⟩, ?_⟩
  · unfold routeSearchResult
    rw [if_neg hother, hchop]
  · unfold routeSearchResult
    rw [if_neg hother, hchop]
  · rw [hhits, if_neg fun hsame => hne hsame.1.symm, Nat.add_zero]
  · rw [hhits, if_pos ⟨rfl, rfl⟩]

theorem routeSearchResult_of_spent {env : Surroundings} {item : SearchResultItem}
    {info : TurtleSearchRequestInfo} {s : P3Turtle} (hother : info.origin ≠ s.ownId)
    (hchop : chop info item.result = none) : routeSearchResult env item info s = s := by
  unfold routeSearchResult
  rw [if_neg hother, hchop]

theorem chop_eq_none_iff {info : TurtleSearchRequestInfo} {result : SearchResult} :
    chop info result = none ↔ ¬ info.resultCount < info.maxAllowedHits := by
  unfold chop
  dsimp only
  rw [UInt32.not_lt]
  split_ifs with hspent
  · exact iff_of_true rfl hspent
  · exact iff_of_false nofun hspent
  · exact iff_of_false nofun hspent

theorem routeSearchResult_iff {env : Surroundings} {item : SearchResultItem}
    {info : TurtleSearchRequestInfo} {s : P3Turtle} (hbudget : s.WithinBudget)
    (hlookup : s.searchRequestsOrigins[item.requestId]? = some info) :
    (routeSearchResult env item info s).WithinBudget ↔
      (info.origin ≠ s.ownId → info.resultCount < info.maxAllowedHits → Fits info item.result) := by
  by_cases hown : info.origin = s.ownId
  · rw [(routeSearchResult_own hown).withinBudget_iff hbudget]
    exact iff_of_true (fun hother => absurd hown hother) fun hother => absurd hown hother
  · obtain ⟨hcount, _⟩ := hbudget _ info hlookup hown
    cases hchop : chop info item.result with
    | none =>
        rw [routeSearchResult_of_spent hown hchop]
        exact iff_of_true hbudget fun _ hleft => absurd hleft (chop_eq_none_iff.mp hchop)
    | some sent =>
        obtain ⟨resultCount, rest⟩ := sent
        have hleft : info.resultCount < info.maxAllowedHits := by
          by_contra hspent
          rw [chop_eq_none_iff.mpr hspent] at hchop
          cases hchop
        obtain ⟨hwrites, hhits⟩ := @routeSearchResult_forwarded env item info s hown _ _ hchop
        rw [hwrites.withinBudget_iff hbudget, P3Turtle.InBudget, hhits, ← hcount, ← chop_iff hchop]
        exact ⟨fun hentry _ _ => hentry hown, fun hfits _ => hfits hown hleft⟩

theorem handleSearchResult_eq {env : Surroundings} {item : SearchResultItem} {s : P3Turtle}
    {result : SearchResult} {info : TurtleSearchRequestInfo}
    (hfilter : filterBanned env item.result = some result)
    (hlookup : s.searchRequestsOrigins[item.requestId]? = some info) :
    handleSearchResult env item s = routeSearchResult env { item with result } info s := by
  unfold handleSearchResult
  rw [hfilter]
  dsimp only
  rw [hlookup]

theorem handleSearchResult_of_dropped {env : Surroundings} {item : SearchResultItem} {s : P3Turtle}
    (hdropped : filterBanned env item.result = none ∨
      s.searchRequestsOrigins[item.requestId]? = none) :
    handleSearchResult env item s = s := by
  unfold handleSearchResult
  rcases hdropped with hfilter | hlookup
  · rw [hfilter]
  · rw [hlookup]
    cases filterBanned env item.result <;> rfl

/-- A result changes nothing, or its entry only. -/
theorem handleSearchResult_cases (env : Surroundings) (item : SearchResultItem) (s : P3Turtle) :
    handleSearchResult env item s = s ∨
      ∃ info, Writes item.requestId info s (handleSearchResult env item s) := by
  cases hfilter : filterBanned env item.result with
  | none => exact .inl (handleSearchResult_of_dropped (.inl hfilter))
  | some result =>
      cases hlookup : s.searchRequestsOrigins[item.requestId]? with
      | none => exact .inl (handleSearchResult_of_dropped (.inr hlookup))
      | some info =>
          rw [handleSearchResult_eq hfilter hlookup]
          by_cases hown : info.origin = s.ownId
          · exact .inr ⟨_, @routeSearchResult_own env { item with result } info s hown⟩
          · cases hchop : chop info result with
            | none => exact .inl (routeSearchResult_of_spent hown hchop)
            | some sent =>
                obtain ⟨resultCount, rest⟩ := sent
                exact .inr ⟨_, (@routeSearchResult_forwarded env { item with result } info s hown
                  resultCount rest hchop).1⟩

theorem handleSearchResult_iff {env : Surroundings} {item : SearchResultItem} {s : P3Turtle}
    (hbudget : s.WithinBudget) :
    (handleSearchResult env item s).WithinBudget ↔ Budgeted s (.handleSearchResult env item) := by
  rw [Budgeted]
  cases hfilter : filterBanned env item.result with
  | none =>
      rw [handleSearchResult_of_dropped (.inl hfilter)]
      exact iff_of_true hbudget fun _ _ hresult => nomatch hresult
  | some result =>
      cases hlookup : s.searchRequestsOrigins[item.requestId]? with
      | none =>
          rw [handleSearchResult_of_dropped (.inr hlookup)]
          exact iff_of_true hbudget fun _ _ _ hinfo => nomatch hinfo
      | some info =>
          rw [handleSearchResult_eq hfilter hlookup,
            @routeSearchResult_iff env { item with result } info s hbudget hlookup]
          constructor
          · intro hfits result' info' hresult hinfo
            cases hresult
            cases hinfo
            exact hfits
          · exact fun hallowed => hallowed result info rfl rfl

theorem lookup_autoWash {now : Nat} {s : P3Turtle} {id : Nat} {info : TurtleSearchRequestInfo}
    (hlookup : (autoWash now s).searchRequestsOrigins[id]? = some info) :
    s.searchRequestsOrigins[id]? = some info := by
  unfold autoWash at hlookup
  dsimp only at hlookup
  rw [OrderedMap.lookup_filter] at hlookup
  exact (Option.filter_eq_some_iff.mp hlookup).1

theorem autoWash_withinBudget {s : P3Turtle} (hbudget : s.WithinBudget) (now : Nat) :
    (autoWash now s).WithinBudget := by
  intro id info hlookup horigin
  have hkept := lookup_autoWash hlookup
  exact hbudget id info hkept horigin

/-- **What one step does.** A step keeps all requests within their budgets exactly when it is
budgeted. -/
theorem step_withinBudget_iff {s t : P3Turtle} {op : Op} (hbudget : s.WithinBudget)
    (hstep : step s op = some t) : t.WithinBudget ↔ Budgeted s op := by
  cases op with
  | handleSearchRequest env item =>
      cases hstep
      exact handleSearchRequest_iff hbudget
  | handleSearchResult env item =>
      cases hstep
      exact handleSearchResult_iff hbudget
  | autoWash now =>
      cases hstep
      exact iff_of_true (autoWash_withinBudget hbudget now) trivial

/-- Nothing is sent back for an id that is not kept. -/
theorem step_silent {s t : P3Turtle} {op : Op} (hstep : step s op = some t) {id : Nat}
    (hafter : t.searchRequestsOrigins[id]? = none) (peer : PeerId) : t.hitsSent id peer = s.hitsSent id peer := by
  have hwritten : ∀ {written info}, Writes written info s t →
      t.hitsSent id peer = s.hitsSent id peer := by
    intro written info hwrites
    refine hwrites.others id peer fun hsame => ?_
    rw [hwrites.origins, hsame, OrderedMap.lookup_insert_self] at hafter
    cases hafter
  cases op with
  | handleSearchRequest env item =>
      cases hstep
      cases haccepts : acceptsSearchRequest env item s with
      | false => rw [handleSearchRequest_of_refused haccepts]
      | true =>
          obtain ⟨info, hwrites, _⟩ := handleSearchRequest_spec haccepts
          exact hwritten hwrites
  | handleSearchResult env item =>
      cases hstep
      rcases handleSearchResult_cases env item s with hsame | ⟨info, hwrites⟩
      · rw [hsame]
      · exact hwritten hwrites
  | autoWash now =>
      cases hstep
      rfl

/-! ### Runs -/

theorem withinBudget_start (ownId : PeerId) (randomBias : UInt32) :
    P3Turtle.WithinBudget { ownId, randomBias } := by
  unfold P3Turtle.WithinBudget
  intro id info hlookup
  cases Std.ExtTreeMap.getElem?_empty.symm.trans hlookup

/-- **The hit budget.** In a run whose steps are budgeted, the count of every request of another peer
is the number of hits sent back to it, and at most the number allowed. No step sends a hit for an id
that is not kept. -/
theorem reachable_withinBudget {ownId : PeerId} {randomBias : UInt32} {s : P3Turtle}
    (hreach : Reaches step Budgeted { ownId, randomBias } s) :
    s.WithinBudget ∧
      ∀ op t, step s op = some t → ∀ id peer, t.searchRequestsOrigins[id]? = none →
        t.hitsSent id peer = s.hitsSent id peer :=
  ⟨hreach.invariant P3Turtle.WithinBudget
      (fun _ _ _ hbudget hallowed hstep => (step_withinBudget_iff hbudget hstep).mpr hallowed)
      (withinBudget_start ownId randomBias),
    fun _ _ hstep _ peer hafter => step_silent hstep hafter peer⟩

/-! ### Two searches -/

theorem length_peerOf (byte : UInt8) : (List.replicate 16 byte).length = 16 :=
  List.length_replicate

def peerOf (byte : UInt8) : PeerId := ⟨List.replicate 16 byte, length_peerOf byte⟩

theorem length_sharedHash : (List.replicate 20 (0 : UInt8)).length = 20 := List.length_replicate

/-- A node where a search finds so many files, all alike. -/
def sharing (count : Nat) : Surroundings where
  now := 0
  itemSize _ := 30
  search _ := List.replicate count ⟨1, ⟨List.replicate 20 0, length_sharedHash⟩, []⟩
  registeredServices _ := false
  receiveSearchRequest _ _ maxAllowedHits := (none, maxAllowedHits)
  peersConnected := []
  linkType _ := 0
  isHashBanned _ := false

def fresh : P3Turtle := { ownId := peerOf 0, randomBias := 0 }

def askedFor : SearchRequestItem := ⟨peerOf 1, 7, 2, .string []⟩

theorem accepts_fresh (count : Nat) : acceptsSearchRequest (sharing count) askedFor fresh = true := by
  unfold acceptsSearchRequest fresh
  rw [Std.ExtTreeMap.getElem?_empty, Std.ExtTreeMap.size_empty]
  rfl

theorem reachable_withinBudget_twoFiles :
    (handleSearchRequest (sharing 2) askedFor fresh).WithinBudget := by
  have hallowed : Budgeted fresh (.handleSearchRequest (sharing 2) askedFor) :=
    fun _ _ => ⟨rfl, fun _ => by decide⟩
  exact (reachable_withinBudget ((Reaches.refl fresh).tail hallowed rfl)).1

/-- A search that finds one file too many sends it. -/
theorem withinBudget_counterexample :
    ¬ ∀ s : P3Turtle, Reaches step (fun _ _ => True) fresh s → s.WithinBudget := by
  intro hclaim
  have hafter := hclaim _ ((Reaches.refl fresh).next
    (.handleSearchRequest (sharing 5001) askedFor) trivial rfl)
  have hallowed := (handleSearchRequest_iff (withinBudget_start _ _)).mp hafter
  have hfiles := (hallowed (accepts_fresh _) (by decide)).2 trivial
  rw [sharing, List.length_replicate] at hfiles
  exact absurd hfiles (by decide)

end RetroShare.Turtle
