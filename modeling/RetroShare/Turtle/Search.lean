import RetroShare.Foundation.OrderedMap
import RetroShare.Foundation.Transition
import RetroShare.Util.RegularExpression

/-!
# Searching through the turtle router

A search request comes from a peer, is answered from what is shared here, and goes on to the other
peers. What they find comes back on the same way. A request is kept with the peer that it came from, the
number of hits that have been sent there, and how many may be.
-/

namespace RetroShare.Turtle

open RegularExpression

abbrev PeerId := { bytes : List UInt8 // bytes.length = 16 }

abbrev FileHash := { bytes : List UInt8 // bytes.length = 20 }

/-- `SEARCH_REQUESTS_LIFE_TIME` -/
def searchRequestsLifeTime : Nat := 240

/-- `MAX_ALLOWED_SR_IN_CACHE` -/
def maxAllowedSrInCache : Nat := 120

/-- `TURTLE_SEARCH_RESULT_MAX_HITS_FILES` -/
def searchResultMaxHitsFiles : UInt32 := 5000

/-- `TURTLE_SEARCH_RESULT_MAX_HITS_DEFAULT` -/
def searchResultMaxHitsDefault : UInt32 := 100

/-- `TURTLE_MAX_SEARCH_DEPTH` -/
def maxSearchDepth : UInt16 := 6

/-- `TURTLE_MAX_SEARCH_REQ_ACCEPTED_SERIAL_SIZE` -/
def maxSearchReqAcceptedSerialSize : UInt32 := 200

/-- `RSTURTLE_MAX_SEARCH_RESPONSE_SIZE` -/
def maxSearchResponseSize : UInt32 := 10000

/-- `RS_SERVICE_TYPE_FILE_TRANSFER` -/
def serviceTypeFileTransfer : UInt16 := 0x0017

/-- `RS_NET_CONN_SPEED_TRICKLE | RS_NET_CONN_SPEED_LOW` -/
def slowLinkTypes : UInt32 := 0x00010000 ||| 0x00020000

/-! ### Items -/

structure TurtleFileInfo where
  size : UInt64
  hash : FileHash
  name : List UInt8
  deriving DecidableEq

/-- The kinds of `RsTurtleSearchRequestItem`. -/
inductive SearchRequest
  | string (matchString : List UInt8)
  | regExp (expr : LinearizedExpression)
  | generic (serviceId : UInt16) (requestType : UInt8) (searchData : List UInt8)

structure SearchRequestItem where
  peerId : PeerId
  requestId : Nat
  depth : UInt16
  request : SearchRequest

def SearchRequestItem.serviceId (item : SearchRequestItem) : UInt16 :=
  match item.request with
  | .string _ => serviceTypeFileTransfer
  | .regExp _ => serviceTypeFileTransfer
  | .generic serviceId _ _ => serviceId

/-- The kinds of `RsTurtleSearchResultItem`. -/
inductive SearchResult
  | ft (result : List TurtleFileInfo)
  | generic (resultData : List UInt8)
  deriving DecidableEq

structure SearchResultItem where
  peerId : PeerId
  requestId : Nat
  result : SearchResult
  deriving DecidableEq

namespace SearchResult

/-- A generic result is no list of hits: their number is guessed from its size. -/
def count : SearchResult → UInt32
  | ft result => UInt32.ofNat result.length
  | generic resultData => UInt32.ofNat resultData.length / 50

/-- A generic result cannot be shortened. -/
def pop : SearchResult → SearchResult
  | ft result => ft result.dropLast
  | generic resultData => generic resultData

/-- How many hits a result brings to whom it is sent to. -/
def hits : SearchResult → Nat
  | ft result => result.length
  | generic resultData => (generic resultData).count.toNat

end SearchResult

/-! ### State -/

structure TurtleSearchRequestInfo where
  origin : PeerId
  timeStamp : Nat
  depth : UInt16
  resultCount : UInt32
  serviceId : UInt16
  maxAllowedHits : UInt32

/-- What the router has sent. The results of the local search and those of other peers are kept apart. -/
inductive Sent
  | request (item : SearchRequestItem)
  | localResult (item : SearchResultItem)
  | forwardedResult (item : SearchResultItem)

structure P3Turtle where
  ownId : PeerId
  randomBias : UInt32
  searchRequestsOrigins : OrderedMap Nat TurtleSearchRequestInfo := ∅
  sent : List Sent := []
  notified : List (UInt16 × SearchResultItem) := []

/-- What one call reads from outside: the clock, the serialiser, the shared files and the services that
are searched, the peers that are there, and the hashes that are banned. -/
structure Surroundings where
  now : Nat
  itemSize : SearchRequestItem → UInt32
  search : SearchRequestItem → List TurtleFileInfo
  registeredServices : UInt16 → Bool
  receiveSearchRequest : UInt16 → List UInt8 → UInt32 → Option (List UInt8) × UInt32
  peersConnected : List PeerId
  linkType : PeerId → UInt32
  isHashBanned : FileHash → Bool

/-! ### Local search -/

/-- What a local search leaves in `req_result_count`, `search_results` and `max_allowed_hits`. -/
structure LocalSearch where
  resultCount : UInt32 := 0
  results : List SearchResult := []
  maxAllowedHits : UInt32 := searchResultMaxHitsDefault

/-- The items that `performLocalSearch_files` fills one after the other; `resItem` is the one that is
not full yet. -/
structure Chunks where
  resultCount : UInt32
  full : List (List TurtleFileInfo) := []
  resItem : Option (List TurtleFileInfo) := none
  itemSize : UInt32 := 0

def Chunks.items (chunks : Chunks) : List (List TurtleFileInfo) :=
  chunks.full ++ chunks.resItem.toList

/-- One round of the loop of `performLocalSearch_files`. -/
def Chunks.push (maxAllowedHits : UInt32) (chunks : Chunks) (info : TurtleFileInfo) : Chunks :=
  let (resItem, itemSize) :=
    match chunks.resItem with
    | none => ([], 0)
    | some resItem => (resItem, chunks.itemSize)
  let resItem := resItem ++ [info]
  let resultCount := chunks.resultCount + 1
  let itemSize := itemSize + (8 + 20 + UInt32.ofNat info.name.length)
  if itemSize > maxSearchResponseSize || resultCount ≥ maxAllowedHits then
    { resultCount, full := chunks.full ++ [resItem], resItem := none, itemSize }
  else { resultCount, full := chunks.full, resItem := some resItem, itemSize }

def performLocalSearchFiles (env : Surroundings) (item : SearchRequestItem) (found : LocalSearch) :
    LocalSearch :=
  let maxAllowedHits := searchResultMaxHitsFiles
  let chunks := (env.search item).foldl (Chunks.push maxAllowedHits)
    { resultCount := found.resultCount }
  { resultCount := chunks.resultCount, results := chunks.items.map .ft, maxAllowedHits }

def performLocalSearchGeneric (env : Surroundings) (serviceId : UInt16) (searchData : List UInt8)
    (found : LocalSearch) : LocalSearch :=
  if env.registeredServices serviceId then
    match env.receiveSearchRequest serviceId searchData found.maxAllowedHits with
    | (none, maxAllowedHits) => { found with maxAllowedHits }
    | (some resultData, maxAllowedHits) =>
        { found with results := found.results ++ [.generic resultData], maxAllowedHits }
  else found

def performLocalSearch (env : Surroundings) (item : SearchRequestItem) (found : LocalSearch) :
    LocalSearch :=
  match item.request with
  | .string _ => performLocalSearchFiles env item found
  | .regExp _ => performLocalSearchFiles env item found
  | .generic serviceId _ searchData => performLocalSearchGeneric env serviceId searchData found

/-! ### Requests -/

/-- The two tests on `_random_bias` and the request id. -/
def biased (s : P3Turtle) (item : SearchRequestItem) (value : Nat) : Bool :=
  (s.randomBias.toNat ^^^ item.requestId) &&& 7 = value

/-- The copies of a request that go to the other peers. -/
def forwardedRequests (env : Surroundings) (item : SearchRequestItem) (s : P3Turtle) :
    List SearchRequestItem :=
  let randomBypass := item.depth ≥ maxSearchDepth && biased s item 2
  let randomDshift := item.depth = 1 && biased s item 6
  if item.depth < maxSearchDepth || randomBypass then
    (env.peersConnected.filter fun peer =>
        env.linkType peer &&& slowLinkTypes = 0 && peer ≠ item.peerId).map fun peer =>
      { item with peerId := peer, depth := if randomDshift then item.depth else item.depth + 1 }
  else []

/-- The tests at the start of `handleSearchRequest`. -/
def acceptsSearchRequest (env : Surroundings) (item : SearchRequestItem) (s : P3Turtle) : Bool :=
  env.itemSize item ≤ maxSearchReqAcceptedSerialSize &&
    s.searchRequestsOrigins.size ≤ maxAllowedSrInCache &&
    s.searchRequestsOrigins[item.requestId]?.isNone

/-- The local search of `handleSearchRequest`, which is not made for our own requests. -/
def localSearch (env : Surroundings) (item : SearchRequestItem) (s : P3Turtle) : LocalSearch :=
  if item.peerId = s.ownId then {} else performLocalSearch env item {}

def handleSearchRequest (env : Surroundings) (item : SearchRequestItem) (s : P3Turtle) : P3Turtle :=
  if !acceptsSearchRequest env item s then s
  else
    let found := localSearch env item s
    let s := { s with
      sent := s.sent ++ found.results.map fun result =>
        Sent.localResult ⟨item.peerId, item.requestId, result⟩ }
    let s := { s with
      searchRequestsOrigins := s.searchRequestsOrigins.insert item.requestId {
        origin := item.peerId
        timeStamp := env.now % 2 ^ 32
        depth := item.depth
        resultCount := found.resultCount
        serviceId := item.serviceId
        maxAllowedHits := found.maxAllowedHits } }
    if found.resultCount ≥ found.maxAllowedHits then s
    else { s with sent := s.sent ++ (forwardedRequests env item s).map .request }

/-! ### Results -/

/-- A result without the files whose hash is banned; a list of files that is empty then is dropped. -/
def filterBanned (env : Surroundings) : SearchResult → Option SearchResult
  | .ft result =>
      let result := result.filter fun info => !env.isHashBanned info.hash
      if result.isEmpty then none else some (.ft result)
  | .generic resultData => some (.generic resultData)

/-- What is sent on of a result, and the count after it; `none` where the result is dropped. -/
def chop (info : TurtleSearchRequestInfo) (result : SearchResult) : Option (UInt32 × SearchResult) :=
  let n := result.count
  if info.resultCount ≥ info.maxAllowedHits then none
  else if info.resultCount + n > info.maxAllowedHits then
    some (info.maxAllowedHits,
      SearchResult.pop^[(info.resultCount + n - info.maxAllowedHits).toNat] result)
  else some (info.resultCount + n, result)

/-- `handleSearchResult` on what is left of a result, for a request that is known. -/
def routeSearchResult (env : Surroundings) (item : SearchResultItem)
    (info : TurtleSearchRequestInfo) (s : P3Turtle) : P3Turtle :=
  if info.origin = s.ownId then
    let info := { info with resultCount := info.resultCount + item.result.count }
    let s := { s with
      searchRequestsOrigins := s.searchRequestsOrigins.insert item.requestId info }
    if env.registeredServices info.serviceId then
      { s with notified := s.notified ++ [(info.serviceId, item)] }
    else s
  else
    match chop info item.result with
    | none => s
    | some (resultCount, result) =>
        { s with
          searchRequestsOrigins :=
            s.searchRequestsOrigins.insert item.requestId { info with resultCount }
          sent := s.sent ++ [.forwardedResult ⟨info.origin, item.requestId, result⟩] }

def handleSearchResult (env : Surroundings) (item : SearchResultItem) (s : P3Turtle) : P3Turtle :=
  match filterBanned env item.result with
  | none => s
  | some result =>
      match s.searchRequestsOrigins[item.requestId]? with
      | none => s
      | some info => routeSearchResult env { item with result } info s

/-- `autoWash` on the search requests. -/
def autoWash (now : Nat) (s : P3Turtle) : P3Turtle :=
  { s with
    searchRequestsOrigins := s.searchRequestsOrigins.filter fun _ info =>
      !decide (now > info.timeStamp + searchRequestsLifeTime) }

/-! ### Runs -/

/-- A request of our own is one whose peer is the node itself. -/
inductive Op
  | handleSearchRequest (env : Surroundings) (item : SearchRequestItem)
  | handleSearchResult (env : Surroundings) (item : SearchResultItem)
  | autoWash (now : Nat)

def step (s : P3Turtle) : Op → Option P3Turtle
  | .handleSearchRequest env item => some (Turtle.handleSearchRequest env item s)
  | .handleSearchResult env item => some (Turtle.handleSearchResult env item s)
  | .autoWash now => some (Turtle.autoWash now s)

end RetroShare.Turtle
