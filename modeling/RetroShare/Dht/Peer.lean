import Mathlib.Data.List.Basic

/-!
# Peers of the distributed hash table

`bdiface`, `bdpeer` and `bdstddht`: node ids, the distance between them and what is known of a peer.
-/

namespace RetroShare.Dht

def keyLen : Nat := 20

def keyBitLen : Nat := 160

abbrev NodeId := { data : List UInt8 // data.length = keyLen }

abbrev Metric := NodeId

/-- A `bdId`: a node and the address it was seen at. -/
structure PeerAddr where
  id : NodeId
  ip : UInt32
  port : UInt16
  deriving DecidableEq

/-- The byte loop of `operator<` on node ids. -/
def lessBytes : List UInt8 → List UInt8 → Bool
  | a :: as, b :: bs => if a < b then true else if a > b then false else lessBytes as bs
  | _, _ => false

/-- The byte loop of `operator==` on node ids. -/
def sameBytes : List UInt8 → List UInt8 → Bool
  | a :: as, b :: bs => if a < b then false else if a > b then false else sameBytes as bs
  | _, _ => true

def PeerAddr.less (a b : PeerAddr) : Bool :=
  if lessBytes a.id.1 b.id.1 then true
  else if lessBytes b.id.1 a.id.1 then false
  else if a.ip < b.ip then true
  -- this asks the same as the line before
  else if b.ip > a.ip then false
  else decide (a.port < b.port)

def PeerAddr.same (a b : PeerAddr) : Bool :=
  if !sameBytes a.id.1 b.id.1 then false
  else decide (a.ip = b.ip ∧ a.port = b.port)

def distance (a b : NodeId) : Metric :=
  ⟨List.zipWith (· ^^^ ·) a.1 b.1, by rw [List.length_zipWith, a.2, b.2, Nat.min_self]⟩

/-- The place of the highest bit, counted from the lowest one. -/
def bucketDistance (m : Metric) : Nat :=
  match (List.range keyBitLen).find? fun i =>
      (1 : UInt8) <<< UInt8.ofNat (7 - i % 8) &&& m.1.getD (i / 8) 0 ≠ 0 with
  | some i => keyBitLen - i - 1
  | none => 0

/-- Differences in port are ignored. -/
def SimilarId (n1 n2 : PeerAddr) : Prop := n1.id = n2.id ∧ n1.ip = n2.ip

instance : DecidableRel SimilarId := fun n1 n2 =>
  inferInstanceAs (Decidable (n1.id = n2.id ∧ n1.ip = n2.ip))

def updateSimilarId (dest src : PeerAddr) : Bool × PeerAddr :=
  if dest.port = src.port then (false, dest) else (true, { dest with port := src.port })

structure Peer where
  mPeerId : PeerAddr
  mPeerFlags : BitVec 32
  mLastSendTime : Int
  mLastRecvTime : Int
  mFoundTime : Int
  mExtraFlags : BitVec 32
  deriving DecidableEq

def statusRecvPong : BitVec 32 := 0x00000002

def statusRecvNodes : BitVec 32 := 0x00000004

def statusDhtEngineVersion : BitVec 32 := 0x00000200

def exflagUnstable : BitVec 32 := 0x00000001

def exflagAttached : BitVec 32 := 0x00000002

theorem SimilarId.symm {n1 n2 : PeerAddr} (hsimilar : SimilarId n1 n2) : SimilarId n2 n1 :=
  ⟨hsimilar.1.symm, hsimilar.2.symm⟩

theorem SimilarId.trans {n1 n2 n3 : PeerAddr} (h12 : SimilarId n1 n2) (h23 : SimilarId n2 n3) :
    SimilarId n1 n3 :=
  ⟨h12.1.trans h23.1, h12.2.trans h23.2⟩

theorem updateSimilarId_similar (dest src : PeerAddr) :
    SimilarId (updateSimilarId dest src).2 dest := by
  unfold updateSimilarId
  split
  · exact ⟨rfl, rfl⟩
  · exact ⟨rfl, rfl⟩

theorem bucketDistance_lt (m : Metric) : bucketDistance m < keyBitLen := by
  unfold bucketDistance
  split
  · unfold keyBitLen
    omega
  · decide

end RetroShare.Dht
