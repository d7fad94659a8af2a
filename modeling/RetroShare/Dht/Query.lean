import RetroShare.Dht.Peer
import RetroShare.Foundation.Multimap
import RetroShare.Foundation.Word
import Mathlib.Data.List.Lex

/-!
# Queries

`bdQuery`: the search for the peers closest to an id. It keeps the closest peers that answered, the
potential ones that others told of, and the peers that could be proxies for the target. Reading the
first or the last entry of an empty map has no outcome.
-/

namespace RetroShare.Dht

def expectedReply : Int := 10

def queryIdleRetryPeerPeriod : Int := 600

def maxQueryIdlePeriod : Int := 1200

def minQueryAge : Int := 10

def maxQueryAge : Int := 300

def minPingPotentialPeriod : Int := 300

def potPeerCleanPeriod : Int := 60

def maxPotentialProxies : Nat := 10

def qflagsDisguise : BitVec 32 := 0x0001

def qflagsDoIdle : BitVec 32 := 0x0002

inductive QueryState
  | querying
  | failure
  | foundClosest
  | peerUnreachable
  | success
  deriving DecidableEq

structure Query where
  mId : NodeId
  mLimit : Metric
  mState : QueryState
  mQueryTS : Int
  mQueryFlags : BitVec 32
  mSearchTime : Int
  mQueryIdlePeerRetryPeriod : Int
  mClosest : Multimap Metric Peer
  mPotentialPeers : Multimap Metric Peer
  mPotPeerCleanTS : Int
  mRequiredPeerFlags : BitVec 32
  mProxiesUnknown : List Peer
  mProxiesFlagged : List Peer
  mClosestListSize : Nat
  bdNumQueryNodes : Nat

namespace Query

def new (id : NodeId) (startList : List PeerAddr) (queryFlags : BitVec 32) (numQueryNodes : Nat)
    (now : Int) : Query where
  mId := id
  mLimit := ⟨List.replicate keyLen 0, List.length_replicate⟩
  mState := .querying
  mQueryTS := now
  mQueryFlags := queryFlags
  mSearchTime := 0
  mQueryIdlePeerRetryPeriod := queryIdleRetryPeerPeriod
  mClosest := startList.foldl (fun closest peerId => closest.insert (distance id peerId.id) {
    mPeerId := peerId, mPeerFlags := 0, mLastSendTime := 0, mLastRecvTime := 0, mFoundTime := now,
    mExtraFlags := 0 }) .empty
  mPotentialPeers := .empty
  mPotPeerCleanTS := now
  mRequiredPeerFlags := statusDhtEngineVersion
  mProxiesUnknown := []
  mProxiesFlagged := []
  mClosestListSize := 3 * numQueryNodes / 2
  bdNumQueryNodes := numQueryNodes

/-- The matches that have answered. -/
def result (q : Query) : List PeerAddr :=
  ((q.mClosest.upTo q.mLimit).filter fun e => e.2.mLastRecvTime ≠ 0).map fun e => e.2.mPeerId

/-! ### Closest peers -/

/-- Asked, and silent for longer than a reply takes. -/
def Overdue (ts : Int) (peer : Peer) : Prop :=
  peer.mLastSendTime ≠ 0 ∧ ¬ peer.mLastRecvTime ≥ peer.mLastSendTime ∧
    ts - peer.mLastSendTime > expectedReply

instance (ts : Int) : DecidablePred (Overdue ts) := fun peer =>
  inferInstanceAs (Decidable (peer.mLastSendTime ≠ 0 ∧ ¬ peer.mLastRecvTime ≥ peer.mLastSendTime ∧
    ts - peer.mLastSendTime > expectedReply))

/-- Whether an entry is the one of this peer. -/
def isEntryOf (dist : Metric) (id : PeerAddr) (e : Metric × Peer) : Bool :=
  e.1 = dist ∧ SimilarId id e.2.mPeerId

def updatePort (id : PeerAddr) (peer : Peer) : Peer :=
  let (updated, peerId) := updateSimilarId peer.mPeerId id
  { peer with
    mPeerId := peerId
    mExtraFlags := if updated then peer.mExtraFlags ||| exflagUnstable else peer.mExtraFlags }

def updateClosest (id : PeerAddr) (mode : BitVec 32) (ts : Int) (peer : Peer) : Peer :=
  let peer := if mode ≠ 0 then updatePort id peer else peer
  if mode &&& statusRecvNodes ≠ 0 then
    { peer with mLastRecvTime := ts, mPeerFlags := peer.mPeerFlags ||| mode }
  else peer

/-- The first overdue peer is dropped, so many times. -/
def dropOverdue (ts : Int) : Nat → Multimap Metric Peer → Multimap Metric Peer
  | 0, closest => closest
  | toDrop + 1, closest =>
      dropOverdue ts toDrop (closest.eraseFirst fun e => Overdue ts e.2)

def addClosestPeer (q : Query) (id : PeerAddr) (mode : BitVec 32) (ts : Int) : Bool × Query :=
  let dist := distance q.mId id.id
  let i := ((q.mClosest.upTo dist).filter fun e => ¬ Overdue ts e.2).length
  let toDrop := ((q.mClosest.upTo dist).filter fun e => Overdue ts e.2).length
  if (i : Int) > (q.mClosestListSize : Int) - 1 then (false, q)
  else if q.mClosest.entries.any (isEntryOf dist id) then
    (true, { q with
      mClosest := q.mClosest.update (isEntryOf dist id) (updateClosest id mode ts) })
  else
    let closest := (dropOverdue ts toDrop q.mClosest).truncate (q.mClosestListSize - 1)
    (true, { q with mClosest := closest.insert dist {
      mPeerId := id
      mPeerFlags := mode
      mLastSendTime := 0
      mLastRecvTime := if mode &&& statusRecvNodes ≠ 0 then ts else 0
      mFoundTime := ts
      mExtraFlags := 0 } })

/-! ### Potential peers -/

inductive AddType
  | peerMessage
  | findNodeResponse
  deriving DecidableEq

def worthyPotentialPeer (q : Query) (id : PeerAddr) : Bool :=
  let dist := distance q.mId id.id
  if (∀ e ∈ q.mClosest.entries, e.1 < dist) ∧ q.bdNumQueryNodes ≤ q.mClosest.entries.length then
    false
  else ¬ q.mClosest.entries.any (isEntryOf dist id)

/-- The loop of `trimPotentialPeers_toClosest`, with as many passes as there are entries. -/
def trimLoop (numQueryNodes : Nat) (lastClosest : Metric) :
    Nat → Multimap Metric Peer → Multimap Metric Peer
  | 0, potential => potential
  | passes + 1, potential =>
      match potential.entries.getLast? with
      | some last =>
          if numQueryNodes < potential.entries.length ∧ lastClosest < last.1 then
            trimLoop numQueryNodes lastClosest passes potential.dropLast
          else potential
      | none => potential

def trimPotentialPeersToClosest (q : Query) : Option Query :=
  if q.mPotentialPeers.entries.length ≤ q.bdNumQueryNodes then some q
  else do
    let last ← q.mClosest.entries.getLast?
    let trimmed := trimLoop q.bdNumQueryNodes last.1 q.mPotentialPeers.entries.length
      q.mPotentialPeers
    return { q with mPotentialPeers := trimmed }

/-- Whether the peer is to be pinged. -/
def updatePotentialPeer (q : Query) (id : PeerAddr) (mode : BitVec 32) (addType : AddType)
    (now : Int) : Option (Bool × Query) :=
  let dist := distance q.mId id.id
  match q.mPotentialPeers.entries.find? (isEntryOf dist id) with
  | some (_, peer) =>
      let ping : Bool := addType = .findNodeResponse ∧
        now - peer.mLastSendTime > minPingPotentialPeriod
      let change (peer : Peer) : Peer :=
        let peer := { peer with mPeerFlags := peer.mPeerFlags ||| mode, mLastRecvTime := now }
        if ping then { peer with mLastSendTime := now }
        else if addType = .peerMessage ∧ mode ≠ 0 then updatePort id peer else peer
      some (ping, { q with
        mPotentialPeers := q.mPotentialPeers.update (isEntryOf dist id) change })
  | none => do
      let q ← trimPotentialPeersToClosest { q with
        mPotentialPeers := q.mPotentialPeers.insert dist {
          mPeerId := id
          mPeerFlags := mode
          mLastSendTime := if addType = .findNodeResponse then now else 0
          mLastRecvTime := now
          mFoundTime := now
          mExtraFlags := 0 } }
      return (true, q)

def removeOldPotentialPeers (q : Query) (now : Int) : Query :=
  if q.mQueryFlags &&& qflagsDoIdle = 0 then q
  else if now - q.mPotPeerCleanTS < potPeerCleanPeriod then q
  else { q with
    mPotPeerCleanTS := now
    mPotentialPeers := q.mPotentialPeers.filter fun e =>
      ¬ now - e.2.mLastRecvTime > q.mQueryIdlePeerRetryPeriod + expectedReply }

/-! ### Potential proxies -/

def trimProxies (q : Query) : Query :=
  { q with
    mProxiesUnknown := q.mProxiesUnknown.take maxPotentialProxies
    mProxiesFlagged := q.mProxiesFlagged.take maxPotentialProxies }

def pushProxy (q : Query) (peer : Peer) : Query :=
  if peer.mPeerFlags &&& q.mRequiredPeerFlags = q.mRequiredPeerFlags then
    { q with mProxiesFlagged := peer :: q.mProxiesFlagged }
  else { q with mProxiesUnknown := peer :: q.mProxiesUnknown }

/-- The peer found in one of the lists as it moves to the front, and the rest of the list. -/
def updateProxyList (id : PeerAddr) (mode : BitVec 32) (now : Int) (searchProxyList : List Peer) :
    Option (Peer × List Peer) := do
  let peer ← searchProxyList.find? fun peer => SimilarId id peer.mPeerId
  let peer := if mode ≠ 0 then updatePort id peer else peer
  return ({ peer with mPeerFlags := peer.mPeerFlags ||| mode, mLastRecvTime := now },
    searchProxyList.eraseP fun peer => SimilarId id peer.mPeerId)

def updateProxyLists (q : Query) (id : PeerAddr) (mode : BitVec 32) (now : Int) : Option Query :=
  match updateProxyList id mode now q.mProxiesUnknown with
  | some (peer, proxies) => some ({ q with mProxiesUnknown := proxies }.pushProxy peer)
  | none => do
      let (peer, proxies) ← updateProxyList id mode now q.mProxiesFlagged
      return { q with mProxiesFlagged := proxies }.pushProxy peer

def addProxy (q : Query) (id : PeerAddr) (src : Option PeerAddr) (srcmode : BitVec 32)
    (now : Int) : Query :=
  match src with
  | none => q
  | some src =>
      if bucketDistance (distance q.mId id.id) ≠ 0 then q
      else
        let added := (q.updateProxyLists src srcmode now).getD (q.pushProxy {
          mPeerId := src, mPeerFlags := srcmode, mLastSendTime := 0, mLastRecvTime := now,
          mFoundTime := now, mExtraFlags := 0 })
        added.trimProxies

def updateProxy (q : Query) (id : PeerAddr) (mode : BitVec 32) (now : Int) : Query :=
  ((q.updateProxyLists id mode now).getD q).trimProxies

/-! ### The interface -/

def addPeer (q : Query) (id : PeerAddr) (mode : BitVec 32) (now : Int) : Option Query := do
  let (_, q) := q.addClosestPeer id mode now
  let (_, q) ← q.updatePotentialPeer id mode .peerMessage now
  return q.updateProxy id mode now

def addPotentialPeer (q : Query) (id : PeerAddr) (src : Option PeerAddr) (srcmode : BitVec 32)
    (now : Int) : Option (Bool × Query) :=
  let q := q.addProxy id src srcmode now
  if q.worthyPotentialPeer id then q.updatePotentialPeer id 0 .findNodeResponse now
  else some (false, q)

/-- The bytes of the target up to the first one in which the other id differs, and random ones. -/
def randomMidId (target other random : NodeId) : NodeId :=
  let copied := ((distance target other).1.takeWhile fun byte => byte = 0).length + 1
  ⟨target.1.take copied ++ random.1.drop copied, by
    rw [List.length_append, List.length_take, List.length_drop, target.2, random.2]
    omega⟩

def updateRetryPeriod (q : Query) (now : Int) : Query :=
  if (now - q.mQueryTS).tdiv 2 > q.mQueryIdlePeerRetryPeriod then
    let period := ((now - q.mQueryTS).tdiv 2).bmod (2 ^ 32)
    { q with mQueryIdlePeerRetryPeriod := min period maxQueryIdlePeriod }
  else q

def finish (q : Query) (now : Int) : Option Query :=
  let q := if q.mState = .querying then
    { q with mSearchTime := (now - q.mQueryTS).bmod (2 ^ 32) } else q
  let q := q.removeOldPotentialPeers now
  match q.mClosest.entries with
  | [] => some { q with mState := .failure }
  | (_, first) :: _ =>
      if first.mPeerId.id = q.mId ∧ first.mLastRecvTime ≠ 0 then some { q with mState := .success }
      else do
        let (_, potential) ← q.mPotentialPeers.entries.head?
        return { q with mState :=
          if potential.mPeerId.id = q.mId then .peerUnreachable else .foundClosest }

/-- The peer to ask, and the id to ask for. -/
def nextQuery (q : Query) (random : NodeId) (now : Int) :
    Option (Option (PeerAddr × NodeId) × Query) :=
  if q.mState ≠ .querying ∧ q.mQueryFlags &&& qflagsDoIdle = 0 then some (none, q)
  else
    let q := q.updateRetryPeriod now
    let queryPeer (e : Metric × Peer) : Bool := e.2.mLastSendTime = 0 ∨
      (q.mQueryFlags &&& qflagsDoIdle ≠ 0 ∧
        now - e.2.mLastSendTime > q.mQueryIdlePeerRetryPeriod)
    match q.mClosest.entries.find? queryPeer with
    | some (_, peer) =>
        let targetNodeId := if q.mQueryFlags &&& qflagsDisguise ≠ 0 then
          randomMidId q.mId peer.mPeerId.id random else q.mId
        some (some (peer.mPeerId, targetNodeId), { q with
          mClosest := q.mClosest.update queryPeer fun peer => { peer with mLastSendTime := now } })
    | none => do
        let notFinished := (q.mClosest.entries.take q.bdNumQueryNodes).any fun e =>
          e.2.mLastRecvTime = 0 ∨ now - e.2.mLastRecvTime < expectedReply
        let age := now - q.mQueryTS
        if age < minQueryAge then return (none, q)
        else if ¬ age > maxQueryAge ∧
            (q.mClosest.entries.length < q.bdNumQueryNodes ∨ notFinished) then return (none, q)
        else
          let q ← q.finish now
          return (none, q)

/-! ### Runs -/

inductive Op
  | addPeer (id : PeerAddr) (mode : BitVec 32)
  | addPotentialPeer (id : PeerAddr) (src : Option PeerAddr) (srcmode : BitVec 32)
  | nextQuery (random : NodeId)

def step (q : Query) : Int × Op → Option Query
  | (now, .addPeer id mode) => q.addPeer id mode now
  | (now, .addPotentialPeer id src srcmode) => do
      let (_, q) ← q.addPotentialPeer id src srcmode now
      return q
  | (now, .nextQuery random) => do
      let (_, q) ← q.nextQuery random now
      return q

end Query

end RetroShare.Dht
