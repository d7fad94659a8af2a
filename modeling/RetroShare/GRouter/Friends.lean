import RetroShare.Foundation.Rounding
import RetroShare.GRouter.Matrix

/-!
# Friends to send to

`locked_collectAvailableFriends` splits the duplication factor of a message over the friends that are
the most likely to bring it closer. Probabilities are rationals here.
-/

namespace RetroShare.GRouter

open Rounding

/-- `GROUTER_MAX_BRANCHING_FACTOR` -/
def maxBranchingFactor : Nat := 3

/-- `RS_GROUTER_PROBABILITY_THRESHOLD_FOR_RANDOM_ROUTING` -/
def thresholdForRandomRouting : ℚ := 1 / 100

/-- `RS_GROUTER_PROBABILITY_THRESHOLD_BEST_PEERS_SELECT` -/
def thresholdBestPeersSelect : ℚ := 1 / 2

namespace Matrix

/-- An unknown friend gets the index behind the last one. -/
def getFriendIdConst (m : Matrix) (sourceFriend : PeerId) : Nat :=
  m.friendIndices[sourceFriend]?.getD m.reverseFriendIndices.length

/-- The probabilities of the friends, and the `maximum` before they are normalised. For an unknown key
it is left as it was. -/
def computeRoutingProbabilities (m : Matrix) (keyId : KeyId) (friends : List PeerId) (maximum : ℚ) :
    Bool × List ℚ × ℚ :=
  match m.timeCombinedHits[keyId]? with
  | none => (false, List.replicate friends.length 0, maximum)
  | some w =>
      let probas := friends.map fun sourceFriend => w[m.getFriendIdConst sourceFriend]?.getD 0
      let total := probas.sum
      (true, if total > 0 then probas.map (· / total) else probas, probas.foldl max 0)

end Matrix

/-- `p3LinkMgrIMPL::getFriendList`: the keys of `mFriendList`. -/
def getFriendList {ConnectState : Type} (friendList : OrderedMap PeerId ConnectState) : List PeerId :=
  friendList.toList.map Prod.fst

/-- `std::sort` with `item_comparator_001`. Pairs with equal first components come in any order. -/
structure PairSort where
  sort : List (ℚ × PeerId) → List (ℚ × PeerId)
  perm : ∀ pairs, (sort pairs).Perm pairs
  sorted : ∀ pairs, (sort pairs).Pairwise fun p q => p.1 ≤ q.1

/-- The values of `random_f32`, one draw after the other. -/
abbrev RandomF32 := Nat → { x : ℚ // 0 ≤ x ∧ x ≤ 1 }

/-- A conversion to `uint32_t`, which has no outcome outside of its range. -/
def toUInt32 (z : ℤ) : Option Nat := if 0 ≤ z ∧ z < 2 ^ 32 then some z.toNat else none

/-- The peers that are left, with their probabilities. -/
def availableFriends (random : RandomF32) (onlineIds incomingRoutes : List PeerId)
    (maxProbability : ℚ) (peers : List (PeerId × ℚ)) : List (ℚ × PeerId) :=
  let kept := peers.filter fun entry =>
    entry.1 ∉ incomingRoutes ∧ entry.1 ∈ onlineIds ∧
      ¬entry.2 < thresholdBestPeersSelect * maxProbability
  kept.mapIdx fun count entry =>
    (if maxProbability = 0 then 1 / 2 + 1 / 1000 * (random count).1 else entry.2, entry.1)

/-- One pass of the last loop: `real_dupl` and the new `duplication_factor_delta`. -/
def duplication (duplicationFactor maxCount : Nat) (proba delta : ℚ) : Option (Nat × ℚ) := do
  let ideal := duplicationFactor * proba - delta -- correct what was taken in advance
  let rounded ← toUInt32 (rint ideal)
  let real := min (duplicationFactor - maxCount + 1) (max 1 rounded)
  return (real, real - ideal)

/-- The last loop. -/
def spread (duplicationFactor maxCount : Nat) :
    List (ℚ × PeerId) → ℚ → OrderedMap PeerId Nat → Option (OrderedMap PeerId Nat)
  | [], _, factors => some factors
  | (proba, peer) :: rest, delta, factors => do
      let (real, delta) ← duplication duplicationFactor maxCount proba delta
      spread duplicationFactor maxCount rest delta (factors.insert peer real)

/-- What is added to `friend_peers_and_duplication_factors`. -/
def lockedCollectAvailableFriends {ConnectState : Type} (m : Matrix)
    (friendList : OrderedMap PeerId ConnectState) (onlineIds : List PeerId) (random : RandomF32)
    (pairSort : PairSort) (gxsId : KeyId) (incomingRoutes : List PeerId) (duplicationFactor : UInt32)
    (factors : OrderedMap PeerId Nat) : Option (OrderedMap PeerId Nat) :=
  let peers := getFriendList friendList
  let (_, probas, maximum) := m.computeRoutingProbabilities gxsId peers 1
  let maxProbability := if maximum < thresholdForRandomRouting then 0 else probas.foldl max 0
  let pairs := pairSort.sort
    (availableFriends random onlineIds incomingRoutes maxProbability (peers.zip probas))
  let maxCount := min (min pairs.length maxBranchingFactor) duplicationFactor.toNat
  -- now select the best peers, from the end
  let selected := pairs.reverse.take maxCount
  let totalProbas := (selected.map Prod.fst).sum
  let normalised := selected.map fun pair => (pair.1 / totalProbas, pair.2)
  spread duplicationFactor.toNat maxCount normalised 0 factors

end RetroShare.GRouter
