import RetroShare.Foundation.Bytes
import RetroShare.Foundation.OrderedMap

/-!
# The packet reader of a connection

`pqistreamer` cuts the byte stream of a connection into packets. The reader stops wherever the stream
has no more bytes and goes on at the next tick, so where it stands is part of its state: at the start
of a packet, or behind a header that lies in `mPkt_rpending`.

Every arrival behind a header is written down as a `Visit`, with the number of bytes the reader asks
the connection for.
-/

namespace RetroShare.PqiStreamer

open Bytes

/-- The side of a `BinInterface` that the reader uses. The bytes of `readdata` are those it stores, and
`connection` counts the connections that there have been. -/
structure BinInterface (Conn : Type) where
  connection : Conn → Nat
  isactive : Conn → Bool
  moretoread : Conn → Nat → Bool × Conn
  readdata : Conn → Int32 → (Int32 × List UInt8) × Conn
  close : Conn → Conn

/-- `RsSerialiser::deserialise`, which may correct the size it is given. -/
abbrev Deserialise (Item : Type) := Memory → UInt32 → Option Item × UInt32

inductive ReadingState
  | initial
  | packetStarted
  deriving DecidableEq, Repr

/-- `getRsPktMaxSize` -/
def getRsPktMaxSize : UInt32 := 262143

/-- `getRsPktBaseSize` -/
def getRsPktBaseSize : UInt32 := 8

/-- `PQISTREAM_PARTIAL_PACKET_HEADER_SIZE` -/
def partialPacketHeaderSize : Nat := 8

/-- `PACKET_SLICING_PROBE_BYTES` -/
def packetSlicingProbeBytes : List UInt8 := [0x02, 0xaa, 0xbb, 0xcc, 0x00, 0x00, 0x00, 0x08]

/-- `max_failed_read_attempts` -/
def maxFailedReadAttempts : Nat := 2000

/-! ### Headers -/

/-- The first eight bytes of a block. -/
def headerOf (block : Memory) : List UInt8 := slice block 0 8

/-- `getRsItemSize` -/
def getRsItemSize (header : List UInt8) : UInt32 :=
  UInt32.ofNat (ofBigEndian ((header.drop 4).take 4))

def isPacketStarting (header : List UInt8) : Bool := header[1]? = some 0x01

def isPacketEnding (header : List UInt8) : Bool := header[1]? = some 0x02

def isPacketMiddle (header : List UInt8) : Bool := header[1]? = some 0x00

/-- `PQISTREAM_SLICE_PROTOCOL_VERSION_ID_01` with one of the three flags. -/
def isPartialPacket (header : List UInt8) : Bool :=
  header[0]? = some 0x10 &&
    (isPacketStarting header || isPacketMiddle header || isPacketEnding header)

def slicePacketId (header : List UInt8) : Nat := ofBigEndian ((header.drop 2).take 4)

/-- How many bytes follow the header. -/
def extralen (header : List UInt8) : UInt32 :=
  if isPartialPacket header then UInt32.ofNat (ofBigEndian ((header.drop 6).take 2))
  else getRsItemSize header - getRsPktBaseSize

/-! ### The reader -/

/-- One arrival behind a header: the connection and the header, if it was read just now, if the packet
was rejected, and the length that `readdata` was asked for. -/
structure Visit where
  connection : Nat
  header : List UInt8
  fresh : Bool
  rejected : Bool
  length : Option Int32
  deriving DecidableEq, Repr

structure Streamer (Conn Item : Type) where
  mBio : Conn
  mPktRpending : Option Memory
  mReadingState : ReadingState
  mFailedReadAttempts : Nat
  mAcceptsPacketSlicing : Bool
  mPartialPackets : OrderedMap Nat (List UInt8)
  mIncoming : List Item
  visits : List Visit

variable {Conn Item : Type}

/-- `mPkt_rpend_size`, which is set and cleared with the buffer. -/
def Streamer.mPktRpendSize (s : Streamer Conn Item) : UInt32 :=
  if s.mPktRpending.isSome then getRsPktMaxSize else 0

def Streamer.block (s : Streamer Conn Item) : Memory := s.mPktRpending.getD fun _ => 0

/-- The part of `free_pend_locked` that concerns what has been read. -/
def freePendLocked (s : Streamer Conn Item) : Streamer Conn Item :=
  { s with mPktRpending := none, mPartialPackets := ∅ }

def allocateRpendLocked (s : Streamer Conn Item) : Streamer Conn Item :=
  { s with mPktRpending := some s.block }

/-- Back at the start of a packet. -/
def restart (s : Streamer Conn Item) : Streamer Conn Item :=
  { s with mReadingState := .initial, mFailedReadAttempts := 0 }

variable (bio : BinInterface Conn) (deserialise : Deserialise Item)

def visit (s : Streamer Conn Item) (fresh rejected : Bool) (length : Option Int32) :
    Streamer Conn Item :=
  let visit := ⟨bio.connection s.mBio, headerOf s.block, fresh, rejected, length⟩
  { s with visits := s.visits ++ [visit] }

/-- `mBio->readdata(&block[offset], length)` -/
def readdata (s : Streamer Conn Item) (offset : Nat) (length : Int32) :
    Int32 × Streamer Conn Item :=
  let ((tmplen, bytes), conn) := bio.readdata s.mBio length
  (tmplen, { s with mBio := conn, mPktRpending := some (blit s.block offset bytes) })

def addPartialPacketLocked (s : Streamer Conn Item) (block : Memory) (len : UInt32) :
    (Option Item × UInt32) × Streamer Conn Item :=
  let header := headerOf block
  let sliceData := slice block partialPacketHeaderSize (len.toNat - partialPacketHeaderSize)
  let store rec := { s with mPartialPackets := s.mPartialPackets.insert (slicePacketId header) rec }
  match s.mPartialPackets[slicePacketId header]? with
  | none =>
      if isPacketStarting header then ((none, 0), store sliceData)
      -- a slice of a packet whose start has not been seen
      else ((none, 0), s)
  | some rec =>
      let kept := if isPacketStarting header then [] else rec
      let mem := kept ++ sliceData
      if isPacketEnding header then
        (deserialise (blit (fun _ => 0) 0 mem) (UInt32.ofNat mem.length),
          { s with mPartialPackets := s.mPartialPackets.erase (slicePacketId header) })
      else ((none, 0), store mem)

/-- What `handleincoming_locked` makes of a whole packet. -/
def createPacket (s : Streamer Conn Item) : Streamer Conn Item :=
  let header := headerOf s.block
  let pktlen := getRsPktBaseSize + extralen header
  let ((pkt, _), s) :=
    if isPartialPacket header then addPartialPacketLocked deserialise s s.block pktlen
    else (deserialise s.block pktlen, s)
  match pkt with
  | some item => restart { s with mIncoming := s.mIncoming ++ [item] }
  | none => restart s

/-- How a part of `handleincoming_locked` ends: the call returns, or it goes on with so many bytes
read. -/
inductive Flow
  | done (status : Int32)
  | next (readbytes : Int32)
  deriving DecidableEq, Repr

/-- The code at `continue_packet`. -/
def continuePacket (s : Streamer Conn Item) (fresh : Bool) (readbytes : Int32) :
    Flow × Streamer Conn Item :=
  let header := headerOf s.block
  let extra := extralen header
  let s := if isPartialPacket header then { s with mAcceptsPacketSlicing := true } else s
  if extra + getRsPktBaseSize > s.mPktRpendSize then
    let s := visit bio s fresh true none
    (.done (-1), restart { s with mBio := bio.close s.mBio })
  else if extra > 0 then
    let s := visit bio s fresh false (some extra.toInt32)
    let (tmplen, s) := readdata bio s getRsPktBaseSize.toNat extra.toInt32
    if extra ≠ tmplen.toUInt32 then
      let s := { s with mFailedReadAttempts := s.mFailedReadAttempts + 1 }
      if s.mFailedReadAttempts > maxFailedReadAttempts then
        (.done (-1), restart { s with mBio := bio.close s.mBio })
      -- the stream has no more bytes yet; the next call goes on here
      else (.done 0, s)
    else (.next (readbytes + extra.toInt32), createPacket deserialise s)
  else (.next readbytes, createPacket deserialise (visit bio s fresh false none))

/-- The code at `start_packet_read`. -/
def startPacketRead (s : Streamer Conn Item) (readbytes : Int32) : Flow × Streamer Conn Item :=
  let blen := getRsPktBaseSize.toInt32
  let s := { s with mPktRpending := some (blit s.block 0 (List.replicate 8 0)) }
  let (tmplen, s) := readdata bio s 0 blen
  if tmplen ≠ blen then
    (.done (if tmplen > 0 then -1 else 0), s)
  else
    let s := { s with mReadingState := .packetStarted, mFailedReadAttempts := 0 }
    let s := if headerOf s.block = packetSlicingProbeBytes then
      { s with mAcceptsPacketSlicing := true } else s
    continuePacket bio deserialise s true (readbytes + blen)

/-- From the end of one packet to the end of the call, for at most `fuel` more packets. -/
def nextPackets (maxin : Int32) : Nat → Flow → Streamer Conn Item → Int32 × Streamer Conn Item
  | _, .done status, s => (status, s)
  | 0, .next _, s => (0, s)
  | fuel + 1, .next readbytes, s =>
      if maxin > readbytes then
        let (more, conn) := bio.moretoread s.mBio 0
        let s := { s with mBio := conn }
        if more then
          let (flow, s) := startPacketRead bio deserialise s readbytes
          nextPackets maxin fuel flow s
        else (0, s)
      else (0, s)

def handleincomingLocked (maxin : Int32) (fuel : Nat) (s : Streamer Conn Item) :
    Int32 × Streamer Conn Item :=
  if !bio.isactive s.mBio then (0, freePendLocked { s with mReadingState := .initial })
  else
    let s := allocateRpendLocked s
    let (flow, s) :=
      match s.mReadingState with
      | .initial => startPacketRead bio deserialise s 0
      | .packetStarted => continuePacket bio deserialise s false 0
    nextPackets bio deserialise maxin fuel flow s

/-! ### Ticks -/

/-- The branch of `tick_recv` and `tick_send` for an interface that is not active. -/
def freeWhenInactive (s : Streamer Conn Item) : Streamer Conn Item :=
  if bio.isactive s.mBio then s else freePendLocked s

/-- The reading half of `tick_recv`. -/
def receive (timeout : Nat) (maxin : Int32) (fuel : Nat) (s : Streamer Conn Item) :
    Streamer Conn Item :=
  let (more, conn) := bio.moretoread s.mBio timeout
  let s := { s with mBio := conn }
  if more then (handleincomingLocked bio deserialise maxin fuel s).2 else s

def tickRecv (timeout : Nat) (maxin : Int32) (fuel : Nat) (s : Streamer Conn Item) :
    Streamer Conn Item :=
  freeWhenInactive bio (receive bio deserialise timeout maxin fuel s)

/-- `tick_send`; what `handleoutgoing_locked` does to the connection is `send`. -/
def tickSend (send : Conn → Conn) (s : Streamer Conn Item) : Streamer Conn Item :=
  let s := freeWhenInactive bio s
  if bio.isactive s.mBio then { s with mBio := send s.mBio } else s

def reset (s : Streamer Conn Item) : Streamer Conn Item := freePendLocked s

/-- The steps of a run. A tick is a `receive`, then `freeWhenInactive` twice with a `change` behind it
for what has been sent; connections are lost and made by a `change`. -/
inductive Op (Conn : Type)
  | receive (timeout : Nat) (maxin : Int32) (fuel : Nat)
  | freeWhenInactive
  | reset
  | change (conn : Conn)

def step (s : Streamer Conn Item) : Op Conn → Option (Streamer Conn Item)
  | .receive timeout maxin fuel => some (receive bio deserialise timeout maxin fuel s)
  | .freeWhenInactive => some (freeWhenInactive bio s)
  | .reset => some (reset s)
  | .change conn => some { s with mBio := conn }

/-- The constructor. -/
def Streamer.new (conn : Conn) : Streamer Conn Item :=
  ⟨conn, none, .initial, 0, false, ∅, [], []⟩

end RetroShare.PqiStreamer
