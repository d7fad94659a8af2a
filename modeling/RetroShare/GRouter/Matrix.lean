import RetroShare.Foundation.OrderedMap
import RetroShare.GRouter.Router
import Mathlib.Algebra.Order.Ring.Rat

/-!
# The routing matrix

`GRouterMatrix` notes from which friends the keys were heard of. A clue names a friend by an index
into a vector that grows with every new friend and that `loadList` replaces as a whole. Weights are
rationals here.
-/

namespace RetroShare.GRouter

abbrev KeyId := GxsId

abbrev GxsMessageId := Sha1CheckSum

/-- `RS_GROUTER_MATRIX_MAX_HIT_ENTRIES` -/
def maxHitEntries : Nat := 10

/-- `RS_GROUTER_MATRIX_MIN_TIME_BETWEEN_HITS` -/
def minTimeBetweenHits : Int := 60

/-- `RS_GROUTER_MAX_KEEP_TRACKING_CLUES` -/
def maxKeepTrackingClues : Int := 86400 * 10

structure RoutingMatrixHitEntry where
  friendId : Nat
  weight : ℚ
  timeStamp : Int

structure RoutingTrackEntry where
  friendId : PeerId
  timeStamp : Int

structure Matrix where
  routingClues : OrderedMap KeyId (List RoutingMatrixHitEntry)
  timeCombinedHits : OrderedMap KeyId (List ℚ)
  trackingClues : OrderedMap GxsMessageId RoutingTrackEntry
  probaNeedUpdating : Bool
  friendIndices : OrderedMap PeerId Nat
  reverseFriendIndices : List PeerId

/-- The items that `saveList` writes. -/
inductive MatrixItem
  | friendList (reverseFriendIndices : List PeerId)
  | clues (destinationKey : KeyId) (clues : List RoutingMatrixHitEntry)
  | track (messageId : GxsMessageId) (providerId : PeerId) (timeStamp : Int)

namespace Matrix

def new : Matrix := ⟨∅, ∅, ∅, true, ∅, []⟩

/-! ### Clues -/

/-- The index of a friend, who is given the next one when there is none. -/
def getFriendId (m : Matrix) (sourceFriend : PeerId) : Nat × Matrix :=
  match m.friendIndices[sourceFriend]? with
  | some fid => (fid, m)
  | none =>
      let newId := m.reverseFriendIndices.length
      (newId, { m with
        reverseFriendIndices := m.reverseFriendIndices ++ [sourceFriend]
        friendIndices := m.friendIndices.insert sourceFriend newId })

def addRoutingClue (m : Matrix) (keyId : KeyId) (sourceFriend : PeerId) (weight : ℚ) (now : Int) :
    Bool × Matrix :=
  let (fid, m) := m.getFriendId sourceFriend
  let lst := m.routingClues[keyId]?.getD []
  if lst.any fun clue => clue.friendId = fid ∧ clue.timeStamp + minTimeBetweenHits > now then
    (false, m)
  else
    let lst := (⟨fid, weight, now⟩ :: lst).take maxHitEntries
    (true, { m with routingClues := m.routingClues.insert keyId lst, probaNeedUpdating := true })

def addTrackingInfo (m : Matrix) (mid : GxsMessageId) (sourceFriend : PeerId) (now : Int) : Matrix :=
  { m with trackingClues := m.trackingClues.insert mid ⟨sourceFriend, now⟩ }

def cleanUp (m : Matrix) (now : Int) : Matrix :=
  { m with trackingClues := m.trackingClues.filter fun _ entry =>
      ¬ entry.timeStamp + maxKeepTrackingClues < now }

/-! ### Probabilities -/

/-- `v[fid] += ..`, which has no outcome outside of the vector. -/
def addHit (now : Int) (v : List ℚ) (clue : RoutingMatrixHitEntry) : Option (List ℚ) :=
  match v[clue.friendId]? with
  | some hits =>
      -- half life period is 7 days
      let timeDifferenceInDays : ℚ := 1 + (now - clue.timeStamp : Int) / (7 * 86400)
      some (v.set clue.friendId (hits + clue.weight / (timeDifferenceInDays * timeDifferenceInDays)))
  | none => none

/-- The row of one key, made anew. -/
def combineHits (now : Int) (friends : Nat) (hits : OrderedMap KeyId (List ℚ))
    (entry : KeyId × List RoutingMatrixHitEntry) : Option (OrderedMap KeyId (List ℚ)) := do
  let v ← entry.2.foldlM (addHit now) (List.replicate friends 0)
  return hits.insert entry.1 v

def updateRoutingProbabilities (m : Matrix) (now : Int) : Option (Bool × Matrix) :=
  if !m.probaNeedUpdating then some (false, m)
  else do
    let hits ← m.routingClues.toList.foldlM (combineHits now m.friendIndices.size) m.timeCombinedHits
    return (true, { m with timeCombinedHits := hits, probaNeedUpdating := false })

/-! ### Saving and loading -/

def saveList (m : Matrix) : List MatrixItem :=
  .friendList m.reverseFriendIndices ::
    (m.routingClues.toList.map fun entry => .clues entry.1 entry.2) ++
    m.trackingClues.toList.map fun entry => .track entry.1 entry.2.friendId entry.2.timeStamp

/-- `_friend_indices[_reverse_friend_indices[i]] = i` for every `i`. -/
def indices (reverseFriendIndices : List PeerId) : OrderedMap PeerId Nat :=
  reverseFriendIndices.zipIdx.foldl (fun built entry => built.insert entry.1 entry.2) ∅

def loadItem (m : Matrix) : MatrixItem → Matrix
  | .track messageId providerId timeStamp =>
      { m with trackingClues := m.trackingClues.insert messageId ⟨providerId, timeStamp⟩ }
  | .clues destinationKey clues =>
      { m with routingClues := m.routingClues.insert destinationKey clues, probaNeedUpdating := true }
  | .friendList reverseFriendIndices =>
      { m with
        reverseFriendIndices := reverseFriendIndices
        friendIndices := indices reverseFriendIndices
        probaNeedUpdating := true }

def loadList (m : Matrix) (items : List MatrixItem) : Matrix := items.foldl loadItem m

end Matrix

/-! ### Runs -/

/-- The matrix, all lists that were ever saved, and the time of the last call. -/
structure MatrixWorld where
  matrix : Matrix
  saved : List (List MatrixItem)
  clock : Int

inductive MatrixOp
  | addRoutingClue (keyId : KeyId) (sourceFriend : PeerId) (weight : ℚ)
  | addTrackingInfo (mid : GxsMessageId) (sourceFriend : PeerId)
  | cleanUp
  | updateRoutingProbabilities
  | saveList
  | loadList (items : List MatrixItem)
  | restart

namespace MatrixWorld

def step (w : MatrixWorld) : Int × MatrixOp → Option MatrixWorld
  | (now, .addRoutingClue keyId sourceFriend weight) =>
      some { w with
        matrix := (w.matrix.addRoutingClue keyId sourceFriend weight now).2, clock := now }
  | (now, .addTrackingInfo mid sourceFriend) =>
      some { w with matrix := w.matrix.addTrackingInfo mid sourceFriend now, clock := now }
  | (now, .cleanUp) => some { w with matrix := w.matrix.cleanUp now, clock := now }
  | (now, .updateRoutingProbabilities) => do
      let (_, matrix) ← w.matrix.updateRoutingProbabilities now
      return { w with matrix := matrix, clock := now }
  | (now, .saveList) => some { w with saved := w.matrix.saveList :: w.saved, clock := now }
  | (now, .loadList items) => some { w with matrix := w.matrix.loadList items, clock := now }
  | (now, .restart) => some { w with matrix := .new, clock := now }

end MatrixWorld

end RetroShare.GRouter
