import RetroShare.Foundation.Transition
import RetroShare.Foundation.Word
import RetroShare.Pqi.PqiStreamer
import RetroShare.Util.RsMemory

/-!
# The outgoing queue of a connection

`pqiQoS` keeps the packets that wait to be sent by their level of priority, and gives them out in slices.
Each round every level that has something gains, and the lowest one that has gained enough is served. The
thresholds are powers of a whole number, and the counters stay below them.
-/

namespace RetroShare.PqiQoS

open Bytes PqiStreamer Util

/-- `MAX_PACKET_COUNTER_VALUE` -/
def maxPacketCounterValue : Nat := 2 ^ 24

/-- `PQISTREAM_OPTIMAL_PACKET_SIZE` -/
def optimalPacketSize : Nat := 512

structure ItemRecord where
  data : List UInt8
  currentOffset : Nat
  id : Nat
  deriving DecidableEq

def ItemRecord.size (item : ItemRecord) : Nat := item.data.length

structure ItemQueue where
  threshold : Nat
  counter : Nat
  inc : Nat
  items : List ItemRecord

/-- What `slice` tells beside the bytes. -/
structure Slice where
  size : Nat
  starts : Bool
  ends : Bool
  packetId : Nat

namespace ItemQueue

def push (q : ItemQueue) (data : List UInt8) (id : Nat) : ItemQueue :=
  { q with items := q.items ++ [⟨data, 0, id⟩] }

/-- The next bytes of the first packet; no more than that is left of it. -/
def slice (q : ItemQueue) (maxSize : Nat) (out : Slice) :
    Option (List UInt8) × Slice × ItemQueue :=
  match q.items with
  | [] => (none, out, q)
  | item :: rest =>
      let popped := { q with items := rest }
      if item.currentOffset = 0 ∧ item.size < maxSize then
        (some item.data, ⟨item.size, true, true, item.id⟩, popped)
      else
        let starts : Bool := item.currentOffset = 0
        let ends : Bool := item.size ≤ Word.add 32 item.currentOffset maxSize
        if item.size ≤ item.currentOffset then
          (none, ⟨out.size, starts, ends, item.id⟩, popped)
        else
          let size := min maxSize (item.size - item.currentOffset)
          if rsMalloc size then
            let mem := (item.data.drop item.currentOffset).take size
            let left := { item with currentOffset := item.currentOffset + size }
            (some mem, ⟨size, starts, ends, item.id⟩,
              if ends then popped else { q with items := left :: rest })
          else (none, ⟨size, starts, ends, item.id⟩, popped)

/-- A level that has something gains, and `true` says that it has gained enough. -/
def gain (q : ItemQueue) (inc : Nat) : Bool × ItemQueue :=
  if q.items.isEmpty then (false, q)
  else if q.threshold ≤ q.counter + inc then
    (true, { q with counter := q.counter + inc - q.threshold })
  else (false, { q with counter := q.counter + inc })

end ItemQueue

end PqiQoS

structure PqiQoS where
  levels : Nat
  itemQueues : Nat → PqiQoS.ItemQueue
  nbItems : Nat
  idCounter : Nat

namespace PqiQoS

open Bytes PqiStreamer Util

def new (nbLevels alpha : Nat) : PqiQoS where
  levels := nbLevels
  itemQueues i := ⟨alpha ^ (nbLevels - 1 - i), 0, alpha, []⟩
  nbItems := 0
  idCounter := 0

/-- The queue of `pqiQoSstreamer`. -/
def ofStreamer : PqiQoS := new 10 2

/-- The level for a priority, which is cut to the highest. -/
def level (s : PqiQoS) (priority : Nat) : Nat :=
  if s.levels ≤ priority then s.levels - 1 else priority

def inRsItem (s : PqiQoS) (data : List UInt8) (priority : Nat) : PqiQoS :=
  let priority := s.level priority
  { s with
    itemQueues := Function.update s.itemQueues priority
      ((s.itemQueues priority).push data s.idCounter)
    nbItems := s.nbItems + 1
    idCounter := if maxPacketCounterValue ≤ s.idCounter + 1 then 0 else s.idCounter + 1 }

/-- The highest level that has something, and what the levels gain. -/
def skipEmpty (itemQueues : Nat → ItemQueue) : Nat → Nat → Nat × Nat
  | 0, inc => (0, inc)
  | i + 1, inc =>
      if (itemQueues (i + 1)).items.isEmpty then skipEmpty itemQueues i (itemQueues i).inc
      else (i + 1, inc)

/-- The loop over the levels below `j`, from the highest to the lowest. -/
def gainAll (inc : Nat) : Nat → Nat → (Nat → ItemQueue) → Nat × (Nat → ItemQueue)
  | 0, last, itemQueues => (last, itemQueues)
  | j + 1, last, itemQueues =>
      let (enough, q) := (itemQueues j).gain inc
      gainAll inc j (if enough then j else last) (Function.update itemQueues j q)

/-- The level that is served, and the levels after their gains. -/
def round (s : PqiQoS) : Nat × (Nat → ItemQueue) :=
  let (i, inc) := skipEmpty s.itemQueues (s.levels - 1) 1
  gainAll inc (i + 1) i s.itemQueues

def outRsItem (s : PqiQoS) (maxSliceSize : Nat) (out : Slice) :
    Option (List UInt8) × Slice × PqiQoS :=
  if s.nbItems = 0 then (none, out, s)
  else
    let (last, itemQueues) := s.round
    let (res, out, q) := (itemQueues last).slice maxSliceSize out
    (res, out,
      { s with
        itemQueues := Function.update itemQueues last q
        nbItems := if out.ends then s.nbItems - 1 else s.nbItems })

/-! ### From the queue to the stream -/

/-- The header of a slice that is not a whole packet. -/
def sliceHeader (out : Slice) : List UInt8 :=
  [0x10, (if out.starts then 0x01 else 0) ||| (if out.ends then 0x02 else 0)] ++
    bigEndian 4 out.packetId ++ bigEndian 2 out.size

/-- One pass of the loop that fills `mPkt_wpending`. -/
inductive Outgoing
  | nothing
  | block (bytes : List UInt8)
  | protocolError

def popOutData (s : PqiQoS) (acceptsPacketSlicing : Bool) : Outgoing × PqiQoS :=
  let desired := if acceptsPacketSlicing then optimalPacketSize else getRsPktMaxSize.toNat
  match s.outRsItem desired ⟨0, true, true, 0⟩ with
  | (none, _, s) => (.nothing, s)
  | (some dta, out, s) =>
      if out.starts ∧ out.ends then (.block dta, s)
      else if 0xffff < out.size ∨ !acceptsPacketSlicing then (.protocolError, s)
      else (.block (sliceHeader out ++ dta), s)

/-! ### A connection -/

/-- What reaches the deserialiser, in place of the item. -/
def rawItem : Deserialise (List UInt8) := fun mem size => (some (slice mem 0 size.toNat), size)

/-- The reader makes a packet of a block that fits into its buffer, behind which lies anything. -/
def receiveBlock (r : Streamer Unit (List UInt8)) (rest : Memory) (block : List UInt8) :
    Option (Streamer Unit (List UInt8)) :=
  let r := { r with mPktRpending := some (blit rest 0 block) }
  if block.length < 8 ∨ extralen (headerOf r.block) + getRsPktBaseSize > getRsPktMaxSize ∨
      (extralen (headerOf r.block)).toNat + 8 ≠ block.length then none
  else some (createPacket rawItem r)

/-- A sender and a reader, with what has been queued, by level. -/
structure Connection where
  sender : PqiQoS
  acceptsPacketSlicing : Bool
  reader : Streamer Unit (List UInt8)
  queued : List (Nat × List UInt8)

namespace Connection

inductive Op
  | queue (data : List UInt8) (priority : Nat)
  | accept
  | send (rest : Memory)

def start : Connection := ⟨ofStreamer, false, .new (), []⟩

def step (s : Connection) : Op → Option Connection
  | .queue data priority =>
      some { s with
        sender := s.sender.inRsItem data priority
        queued := s.queued ++ [(s.sender.level priority, data)] }
  | .accept => some { s with acceptsPacketSlicing := true }
  | .send rest =>
      match s.sender.popOutData s.acceptsPacketSlicing with
      | (.nothing, sender) => some { s with sender := sender }
      | (.block bytes, sender) => do
          let reader ← receiveBlock s.reader rest bytes
          pure { s with sender := sender, reader := reader }
      | (.protocolError, _) => none

end Connection

end PqiQoS

end RetroShare
