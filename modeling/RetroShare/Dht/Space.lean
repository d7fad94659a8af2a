import RetroShare.Dht.Peer
import Mathlib.Data.List.Defs

/-!
# The routing table

`bdSpace`: known peers in buckets by the distance from the own id, each a queue with the peer heard of
last at the back. Looking into a bucket that is not there, or at the front of an empty one, has no
outcome.
-/

namespace RetroShare.Dht

def maxResponsePeriod : Int := 15

def maxSendPeriod : Int := 300

def maxRecvPeriod : Int := maxSendPeriod + maxResponsePeriod

def discardPeriod : Int := 2 * maxSendPeriod + maxResponsePeriod

def attachedSendPeriod : Int := 17

def attachUpdatePeriod : Int := 600

structure Space where
  mOwnId : NodeId
  buckets : List (List Peer)
  mAttachedFlags : BitVec 32
  mAttachedCount : Nat
  mAttachTS : Int

namespace Space

def new (ownId : NodeId) : Space where
  mOwnId := ownId
  buckets := List.replicate keyBitLen []
  mAttachedFlags := 0
  mAttachedCount := 0
  mAttachTS := 0

def clear (s : Space) : Space := { s with buckets := s.buckets.map fun _ => [] }

def setAttachedFlag (s : Space) (withflags : BitVec 32) (count : Nat) : Space :=
  { s with mAttachedFlags := withflags, mAttachedCount := count, mAttachTS := 0 }

/-! ### Lookups in one bucket -/

def findNode (s : Space) (id : NodeId) (withFlags : BitVec 32) : Option (List PeerAddr) := do
  let entries ← s.buckets[bucketDistance (distance id s.mOwnId)]?
  return (entries.filter fun peer =>
    (withFlags = 0 ∨ withFlags &&& peer.mPeerFlags = withFlags) ∧ id = peer.mPeerId.id).map
      Peer.mPeerId

def findExactnode (s : Space) (id : PeerAddr) : Option (Option Peer) := do
  let entries ← s.buckets[bucketDistance (distance id.id s.mOwnId)]?
  return entries.find? fun peer => id = peer.mPeerId

/-! ### Adding and flagging -/

/-- What `add_peer` does to the bucket of the peer, and whether it has the peer then. -/
def addToBucket (nodesPerBucket : Nat) (id : PeerAddr) (peerflags : BitVec 32) (ts : Int)
    (entries : List Peer) : Option (Bool × List Peer) :=
  match entries.find? fun peer => SimilarId id peer.mPeerId with
  | some peer =>
      let (updated, peerId) := updateSimilarId peer.mPeerId id
      let peer := { peer with
        mPeerId := peerId
        mLastRecvTime := ts
        mPeerFlags := peer.mPeerFlags ||| peerflags
        mExtraFlags := if updated then peer.mExtraFlags ||| exflagUnstable else peer.mExtraFlags }
      some (true, entries.eraseP (fun peer => SimilarId id peer.mPeerId) ++ [peer])
  | none =>
      let minScore := entries.foldl
        (fun minScore peer => if peer.mPeerFlags < minScore then peer.mPeerFlags else minScore)
        peerflags
      let newPeer : Peer := {
        mPeerId := id, mPeerFlags := peerflags, mLastSendTime := 0, mLastRecvTime := ts,
        mFoundTime := ts, mExtraFlags := 0 }
      if entries.length < nodesPerBucket then some (true, entries ++ [newPeer])
      else
        match entries with
        | [] => none
        | front :: rest =>
            if ts - front.mLastRecvTime > maxRecvPeriod then some (true, rest ++ [newPeer])
            else if peerflags > minScore ∧
                ((front :: rest).any fun peer => peer.mPeerFlags = minScore) then
              some (true,
                (front :: rest).eraseP (fun peer => peer.mPeerFlags = minScore) ++ [newPeer])
            else some (false, front :: rest)

def addPeer (nodesPerBucket : Nat) (s : Space) (id : PeerAddr) (peerflags : BitVec 32) (ts : Int) :
    Option (Bool × Space) := do
  let bucket := bucketDistance (distance s.mOwnId id.id)
  let entries ← s.buckets[bucket]?
  let (add, entries) ← addToBucket nodesPerBucket id peerflags ts entries
  return (add, { s with buckets := s.buckets.set bucket entries })

def flagpeer (s : Space) (id : PeerAddr) (flags exFlags : BitVec 32) : Option Space := do
  let bucket := bucketDistance (distance s.mOwnId id.id)
  let entries ← s.buckets[bucket]?
  return { s with buckets := s.buckets.set bucket (entries.map fun peer =>
    if SimilarId id peer.mPeerId then { peer with
      mPeerFlags := peer.mPeerFlags ||| flags
      mExtraFlags := peer.mExtraFlags ||| exFlags } else peer) }

def cleanNodeFlags (s : Space) (flags : BitVec 32) : Nat × Space :=
  ((s.buckets.flatten.filter fun peer => flags &&& peer.mPeerFlags ≠ 0).length,
    { s with buckets := s.buckets.map fun entries => entries.map fun peer =>
        if flags &&& peer.mPeerFlags ≠ 0 then
          { peer with mPeerFlags := peer.mPeerFlags &&& ~~~flags } else peer })

/-! ### Attached peers -/

/-- Whether peers are still to be attached, and how many are. -/
structure Attaching where
  doAttached : Bool
  attachedCount : Nat

def attachEntry (s : Space) (peer : Peer) (attaching : Attaching) : Attaching × Peer :=
  if attaching.doAttached ∧ peer.mPeerFlags &&& s.mAttachedFlags = s.mAttachedFlags then
    let attachedCount := attaching.attachedCount + 1
    ({ doAttached := ¬ s.mAttachedCount ≤ attachedCount, attachedCount := attachedCount },
      { peer with mExtraFlags := peer.mExtraFlags ||| exflagAttached })
  else (attaching, { peer with mExtraFlags := peer.mExtraFlags &&& ~~~exflagAttached })

/-- Each bucket is gone through from the back. -/
def attachBuckets (s : Space) : Attaching → List (List Peer) → List (List Peer)
  | _, [] => []
  | attaching, entries :: buckets =>
      let (attaching, entries) := entries.mapAccumr s.attachEntry attaching
      entries :: s.attachBuckets attaching buckets

/-- The first bucket is left as it is. -/
def updateAttachedPeers (s : Space) : Space :=
  { s with buckets := s.buckets.take 1 ++
      s.attachBuckets ⟨0 < s.mAttachedCount, 0⟩ (s.buckets.drop 1) }

/-! ### Out of date peers -/

/-- The peers to ping and the number of attached peers met. -/
structure Scan where
  peerIds : List PeerAddr
  attachedCount : Nat

def Scan.ping (scan : Scan) (peer : Peer) (ts : Int) : Scan × Peer :=
  ({ scan with peerIds := scan.peerIds ++ [peer.mPeerId] }, { peer with mLastSendTime := ts })

def scanAttached (s : Space) (ts : Int) (scan : Scan) (peer : Peer) : Bool × Scan × Peer :=
  if 0 < s.mAttachedCount ∧ peer.mExtraFlags &&& exflagAttached ≠ 0 then
    let (added, scan, peer) :=
      if ts - peer.mLastSendTime > attachedSendPeriod ∧ ts - peer.mLastRecvTime > attachedSendPeriod
      then (true, scan.ping peer ts) else (false, scan, peer)
    (added, { scan with attachedCount := scan.attachedCount + 1 }, peer)
  else (false, scan, peer)

def scanSent (ts : Int) (added : Bool) (scan : Scan) (peer : Peer) : Scan × Peer :=
  if ¬ added ∧ ts - peer.mLastSendTime > maxSendPeriod ∧
      (ts - peer.mLastRecvTime > maxSendPeriod ∨ peer.mPeerFlags &&& statusRecvPong = 0) then
    scan.ping peer ts
  else (scan, peer)

def discarded (ts : Int) (peer : Peer) : Bool :=
  ts - peer.mLastRecvTime > discardPeriod ∨
    (ts - peer.mFoundTime > maxResponsePeriod ∧ peer.mPeerFlags &&& statusRecvPong = 0)

def scanBucket (s : Space) (ts : Int) : Scan → List Peer → Scan × List Peer
  | scan, [] => (scan, [])
  | scan, peer :: entries =>
      let (added, scan, peer) := s.scanAttached ts scan peer
      let (scan, peer) := scanSent ts added scan peer
      let (scan, entries) := s.scanBucket ts scan entries
      (scan, if discarded ts peer then entries else peer :: entries)

def scanBuckets (s : Space) (ts : Int) : Scan → List (List Peer) → Scan × List (List Peer)
  | scan, [] => (scan, [])
  | scan, entries :: buckets =>
      let (scan, entries) := s.scanBucket ts scan entries
      let (scan, buckets) := s.scanBuckets ts scan buckets
      (scan, entries :: buckets)

def scanOutOfDatePeers (s : Space) (ts : Int) : List PeerAddr × Space :=
  let (scan, buckets) := s.scanBuckets ts ⟨[], 0⟩ s.buckets
  let s := { s with buckets := buckets }
  (scan.peerIds,
    if ts - s.mAttachTS > attachUpdatePeriod ∨ scan.attachedCount ≠ s.mAttachedCount then
      { s.updateAttachedPeers with mAttachTS := ts }
    else s)

end Space

/-! ### Runs -/

inductive SpaceOp
  | addPeer (id : PeerAddr) (peerflags : BitVec 32)
  | flagpeer (id : PeerAddr) (flags exFlags : BitVec 32)
  | scanOutOfDatePeers
  | updateAttachedPeers
  | cleanNodeFlags (flags : BitVec 32)
  | setAttachedFlag (withflags : BitVec 32) (count : Nat)
  | clear

/-- The table and the time of the last call. -/
structure TimedSpace where
  space : Space
  clock : Int

def TimedSpace.step (nodesPerBucket : Nat) (t : TimedSpace) : Int × SpaceOp → Option TimedSpace
  | (ts, .addPeer id peerflags) => do
      let (_, space) ← t.space.addPeer nodesPerBucket id peerflags ts
      return ⟨space, ts⟩
  | (ts, .flagpeer id flags exFlags) => do
      let space ← t.space.flagpeer id flags exFlags
      return ⟨space, ts⟩
  | (ts, .scanOutOfDatePeers) => some ⟨(t.space.scanOutOfDatePeers ts).2, ts⟩
  | (ts, .updateAttachedPeers) => some ⟨t.space.updateAttachedPeers, ts⟩
  | (ts, .cleanNodeFlags flags) => some ⟨(t.space.cleanNodeFlags flags).2, ts⟩
  | (ts, .setAttachedFlag withflags count) => some ⟨t.space.setAttachedFlag withflags count, ts⟩
  | (ts, .clear) => some ⟨t.space.clear, ts⟩

end RetroShare.Dht
