import RetroShare.Foundation.Bytes

/-!
# TCP over UDP

One end of a stream. What the user writes is cut into segments and sent in packets, and kept until it
has been acknowledged. What packets bring is put in order and cut into segments again, from which the
user reads. Each side of the store is a queue of whole segments between two that are not full yet.

Clocks are the caller's: a call that looks at a timer gets what the timer says.
-/

namespace RetroShare.Tcp

open Bytes

/-- `MAX_SEG` -/
def maxSeg : Nat := 1000

/-- `TCP_MAX_WIN` -/
def tcpMaxWin : UInt32 := 65500

/-- `TCP_MAX_SEQ` -/
def tcpMaxSeq : UInt32 := 0xffffffff

/-- `kMaxQueueSize` -/
def kMaxQueueSize : Nat := 300

/-- `kMaxPktRetransmit` -/
def kMaxPktRetransmit : Nat := 10

/-- `kMaxSynPktRetransmit` -/
def kMaxSynPktRetransmit : Nat := 100

/-! ### Packets -/

structure TcpPacket where
  data : List UInt8 := []
  seqno : UInt32 := 0
  ackno : UInt32 := 0
  hlenFlags : UInt16 := 0
  winsize : UInt16 := 0
  retrans : Nat := 0
  deriving DecidableEq, Repr

namespace TcpPacket

/-- `TCP_PSEUDO_HDR_SIZE` -/
def pseudoHdrSize : Nat := 20

def hasSyn (pkt : TcpPacket) : Bool := pkt.hlenFlags &&& 0x0040 ≠ 0

def hasFin (pkt : TcpPacket) : Bool := pkt.hlenFlags &&& 0x0080 ≠ 0

def hasAck (pkt : TcpPacket) : Bool := pkt.hlenFlags &&& 0x0008 ≠ 0

def hasRst (pkt : TcpPacket) : Bool := pkt.hlenFlags &&& 0x0020 ≠ 0

def setSyn (pkt : TcpPacket) : TcpPacket := { pkt with hlenFlags := pkt.hlenFlags ||| 0x0040 }

def setFin (pkt : TcpPacket) : TcpPacket := { pkt with hlenFlags := pkt.hlenFlags ||| 0x0080 }

def setAck (pkt : TcpPacket) (val : UInt32) : TcpPacket :=
  { pkt with hlenFlags := pkt.hlenFlags ||| 0x0008, ackno := val }

def datasize (pkt : TcpPacket) : UInt32 := UInt32.ofNat pkt.data.length

/-- `readPacket`, for a datagram. -/
def readPacket (buf : List UInt8) : Option TcpPacket :=
  if buf.length < pseudoHdrSize then none
  else
    some {
      data := buf.drop pseudoHdrSize
      seqno := UInt32.ofNat (ofBigEndian ((buf.drop 4).take 4))
      ackno := UInt32.ofNat (ofBigEndian ((buf.drop 8).take 4))
      hlenFlags := UInt16.ofNat (ofBigEndian ((buf.drop 12).take 2))
      winsize := UInt16.ofNat (ofBigEndian ((buf.drop 14).take 2)) }

end TcpPacket

/-! ### The state -/

inductive TcpState
  | closed
  | listen
  | synSent
  | synRcvd
  | established
  | finWait1
  | finWait2
  | timedWait
  | closing
  | closeWait
  | lastAck
  deriving DecidableEq, Repr

/-- `state < TCP_ESTABLISHED` -/
def TcpState.beforeEstablished : TcpState → Bool
  | closed | listen | synSent | synRcvd => true
  | _ => false

inductive ErrorState
  | none
  | again
  | badf
  | fault
  deriving DecidableEq, Repr

/-- A datagram on the wire, and if it goes out once more. -/
structure Datagram where
  pkt : TcpPacket
  again : Bool
  deriving DecidableEq, Repr

/-- A `TcpStream`. `inData`, `outDataRead` and `outDataNet` are the bytes in use of the buffers of
these names, and `wire` is what has been handed to `udp`. -/
structure TcpStream where
  inData : List UInt8 := []
  inQueue : List (List UInt8) := []
  outDataRead : List UInt8 := []
  outQueue : List (List UInt8) := []
  outDataNet : List UInt8 := []
  inPkt : List TcpPacket := []
  outPkt : List TcpPacket := []
  state : TcpState := .closed
  inStreamActive : Bool := false
  outStreamActive : Bool := false
  outSeqno : UInt32 := 0
  outAcked : UInt32 := 0
  outWinSize : UInt32 := 0
  inAckno : UInt32 := 0
  inWinSize : UInt32 := 0
  maxWinSize : UInt32 := tcpMaxWin
  retransTimerOn : Bool := false
  lastSentAck : UInt32 := 0
  lastSentWinSize : UInt32 := 0
  initOurSeqno : UInt32 := 0
  initPeerSeqno : UInt32 := 0
  errorState : ErrorState := .none
  congestThreshold : UInt32 := tcpMaxWin
  congestWinSize : UInt32 := UInt32.ofNat maxSeg
  congestUpdate : UInt32 := 0
  peerKnown : Bool := false
  wire : List Datagram := []
  deriving DecidableEq, Repr

/-- What the timers say: the retransmission timer has run out, nothing has been sent for four of its
periods, nothing has been sent for as long as the connection is kept alive, nothing has come in for
`kNoPktTimeout`. -/
structure Timers where
  retrans : Bool
  pause : Bool
  keepAlive : Bool
  noPkt : Bool
  deriving DecidableEq, Repr

/-- The bytes that wait to be sent. -/
def TcpStream.pending (s : TcpStream) : List UInt8 := s.inQueue.flatten ++ s.inData

/-- The bytes that wait to be read. -/
def TcpStream.readable (s : TcpStream) : List UInt8 :=
  s.outDataRead ++ s.outQueue.flatten ++ s.outDataNet

/-- `tst` is behind `curr`. -/
def isOldSequence (tst curr : UInt32) : Bool := (tst - curr).toInt32 < 0

/-! ### Writing and reading -/

/-- The loop of `write` that fills segments, and what is left behind it. -/
def fillSegments : Nat → List UInt8 → List (List UInt8) × List UInt8
  | 0, dta => ([], dta)
  | fuel + 1, dta =>
      if maxSeg ≤ dta.length then
        let (segments, rest) := fillSegments fuel (dta.drop maxSeg)
        (dta.take maxSeg :: segments, rest)
      else ([], dta)

/-- `write`; the size is the length of `dta`. -/
def write (dta : List UInt8) (s : TcpStream) : Int × TcpStream :=
  if s.state = .closed then (-1, { s with errorState := .badf })
  else if s.state.beforeEstablished then (-1, { s with errorState := .again })
  else if s.inQueue.length > kMaxQueueSize then (-1, { s with errorState := .again })
  else if !s.outStreamActive then (-1, { s with errorState := .badf })
  else if dta.length + s.inData.length < maxSeg then
    (dta.length, { s with inData := s.inData ++ dta })
  else
    let space := maxSeg - s.inData.length
    let db := s.inData ++ dta.take space
    let (segments, rest) := fillSegments dta.length (dta.drop space)
    (dta.length, { s with inQueue := s.inQueue ++ db :: segments, inData := rest })

/-- `outSizeRead + outQueue.size() * MAX_SEG + outSizeNet`, before it is made an `int`. -/
def TcpStream.pendingSize (s : TcpStream) : Nat :=
  s.outDataRead.length + s.outQueue.length * maxSeg + s.outDataNet.length

/-- `int_read_pending` -/
def intReadPending (s : TcpStream) : Int32 := Int32.ofNat s.pendingSize

def updateInWinSize (s : TcpStream) : TcpStream :=
  let queuedData := (intReadPending s).toUInt32
  if queuedData < s.maxWinSize then { s with inWinSize := s.maxWinSize }
  else if queuedData < 2 * s.maxWinSize then
    { s with inWinSize := 2 * s.maxWinSize - queuedData }
  else { s with inWinSize := 0 }

/-- The part of `read` behind `outDataRead`, with `remSize` more bytes to read: the bytes that are
copied, and the stream after it. -/
def readQueue (remSize : Int32) : List (List UInt8) → TcpStream → List UInt8 × TcpStream
  | db :: outQueue, s =>
      if remSize > 0 then
        if remSize < Int32.ofNat maxSeg then
          let n := remSize.toInt.toNat
          (db.take n, { s with outQueue, outDataRead := db.drop n })
        else
          let (dta, s) := readQueue (remSize - Int32.ofNat maxSeg) outQueue { s with outQueue }
          (db ++ dta, s)
      else ([], s)
  | [], s =>
      if remSize > 0 then
        let n := remSize.toInt.toNat
        (s.outDataNet.take n, { s with outDataRead := s.outDataNet.drop n, outDataNet := [] })
      else ([], s)

/-- `read`: what it returns, what it has stored at `dta`, and the stream after it. -/
def read (size : Int32) (s : TcpStream) : Int32 × List UInt8 × TcpStream :=
  let maxread := intReadPending s
  if s.state = .closed then (-1, [], { s with errorState := .badf })
  else if s.state.beforeEstablished then (-1, [], { s with errorState := .again })
  else if !s.inStreamActive && maxread = 0 then (0, [], s)
  else if maxread = 0 then (-1, [], { s with errorState := .again })
  else
    let size := if maxread < size then maxread else size
    if size.toUInt32.toNat < s.outDataRead.length then
      let n := size.toUInt32.toNat
      let s' := { s with outDataRead := s.outDataRead.drop n }
      (size, s.outDataRead.take n, updateInWinSize s')
    else
      let remSize := size - Int32.ofNat s.outDataRead.length
      let (dta, s') := readQueue remSize s.outQueue { s with outDataRead := [] }
      (size, s.outDataRead ++ dta, updateInWinSize s')

/-! ### Sending -/

/-- The packet as `toSend` completes it. -/
def complete (pkt : TcpPacket) (s : TcpStream) : TcpPacket :=
  let pkt := { pkt with seqno := s.outSeqno, winsize := s.inWinSize.toUInt16 }
  if pkt.hasSyn then pkt else pkt.setAck s.inAckno

/-- `toSend`; `retrans` keeps the packet until it has been acknowledged. -/
def toSend (pkt : TcpPacket) (retrans : Bool) (s : TcpStream) : TcpStream :=
  if !s.peerKnown then s
  else
    let sent := complete pkt s
    let s := { s with
      outSeqno := s.outSeqno + pkt.datasize + if pkt.hasSyn then 1 else 0
      lastSentAck := sent.ackno
      lastSentWinSize := sent.winsize.toUInt32
      wire := s.wire ++ [⟨sent, false⟩] }
    if retrans then
      { s with retransTimerOn := true, outPkt := s.outPkt ++ [{ sent with retrans := 0 }] }
    else s

def sendAck (s : TcpStream) : TcpStream := toSend {} false s

def cleanup (s : TcpStream) : TcpStream :=
  { s with
    outStreamActive := false
    inStreamActive := false
    state := .closed
    inData := []
    inQueue := []
    outPkt := []
    outDataRead := []
    outDataNet := []
    outQueue := []
    inPkt := [] }

/-- The congestion window after one more packet has been acknowledged. -/
def widen (s : TcpStream) : TcpStream :=
  if !isOldSequence s.outAcked s.congestUpdate then
    let size :=
      if s.congestWinSize < s.congestThreshold then s.congestWinSize * 2
      else s.congestWinSize + UInt32.ofNat maxSeg
    let size := if size > s.maxWinSize then s.maxWinSize else size
    { s with congestWinSize := size, congestUpdate := s.outAcked + size }
  else s

/-- The loop of `acknowledge` over the packets that have not been acknowledged before. -/
def clearAcked : List TcpPacket → TcpStream → TcpStream
  | pkt :: outPkt, s =>
      if isOldSequence pkt.seqno s.outAcked then clearAcked outPkt (widen { s with outPkt }) else s
  | [], s => s

def acknowledge (s : TcpStream) : TcpStream :=
  let after := clearAcked s.outPkt s
  if after.outPkt = [] then { after with retransTimerOn := false }
  else if after.outPkt.length < s.outPkt.length then { after with retransTimerOn := true }
  else after

def retrans (timers : Timers) (s : TcpStream) : TcpStream :=
  if !s.peerKnown || !s.retransTimerOn || !timers.retrans then s
  else
    match s.outPkt with
    | [] => { s with retransTimerOn := false }
    | pkt :: outPkt =>
        let s := { s with
          congestThreshold := s.congestWinSize / 2
          congestWinSize := UInt32.ofNat maxSeg
          congestUpdate := s.outAcked + UInt32.ofNat maxSeg }
        let pkt := if pkt.hasSyn then pkt else pkt.setAck s.inAckno
        let s := if pkt.hasSyn then s else { s with lastSentAck := pkt.ackno }
        let pkt := { pkt with winsize := s.inWinSize.toUInt16 }
        let s := { s with
          lastSentWinSize := pkt.winsize.toUInt32, outPkt := pkt :: outPkt }
        if (pkt.hasSyn && pkt.retrans > kMaxSynPktRetransmit) ||
            (!pkt.hasSyn && pkt.retrans > kMaxPktRetransmit) then cleanup s
        else
          { s with
            wire := s.wire ++ [⟨pkt, true⟩]
            outPkt := { pkt with retrans := pkt.retrans + 1 } :: outPkt
            retransTimerOn := true }

/-- The bytes in transit, as `send` computes them. -/
def inTransit (s : TcpStream) : UInt32 :=
  if s.outSeqno < s.outAcked then (tcpMaxSeq - s.outAcked) + s.outSeqno
  else s.outSeqno - s.outAcked

/-- `maxsend` -/
def maxSend (s : TcpStream) : UInt32 :=
  let window := if s.outWinSize < s.congestWinSize then s.outWinSize else s.congestWinSize
  if window > inTransit s then window - inTransit s else 0

/-- The loop of `send` over whole segments, with what may be sent after it. -/
def sendSegments : List (List UInt8) → UInt32 → TcpStream → Nat × UInt32 × TcpStream
  | db :: inQueue, maxsend, s =>
      if maxsend.toNat ≥ maxSeg then
        let (sent, maxsend, s) := sendSegments inQueue (maxsend - UInt32.ofNat maxSeg)
          (toSend { data := db } true { s with inQueue })
        (sent + 1, maxsend, s)
      else (0, maxsend, s)
  | [], maxsend, s => (0, maxsend, s)

/-- The part of `send` behind this loop: less than a segment goes out where nothing else has. -/
def sendPartial (sent : Nat) (maxsend : UInt32) (s : TcpStream) : Bool × TcpStream :=
  if sent = 0 ∧ s.inQueue = [] ∧ maxsend.toNat ≥ s.inData.length ∧ s.inData ≠ [] then
    (true, toSend { data := s.inData } true { s with inData := [] })
  else (sent ≠ 0, s)

/-- The part of `send` that puts new data on the wire, and if it has sent something. -/
def sendData (s : TcpStream) : Bool × TcpStream :=
  let (sent, maxsend, s) := sendSegments s.inQueue (maxSend s) s
  sendPartial sent maxsend s

/-- The part of `send` for a call that has sent no data. -/
def sendControl (timers : Timers) (s : TcpStream) : TcpStream :=
  let needsAck := isOldSequence s.lastSentAck s.inAckno ||
    (s.lastSentWinSize.toNat < maxSeg && s.inWinSize.toNat > maxSeg) ||
    (timers.pause && s.inWinSize > s.lastSentWinSize + UInt32.ofNat (4 * maxSeg)) ||
    timers.keepAlive
  if !s.outStreamActive && s.inQueue = [] && s.inData = [] &&
      (s.state = .established || s.state = .closeWait) then
    let s := toSend (TcpPacket.setFin {}) false s
    if s.state = .established then { s with state := .finWait1 } else { s with state := .lastAck }
  else if needsAck then sendAck s
  else s

def send (timers : Timers) (s : TcpStream) : Int × TcpStream :=
  let s := retrans timers (acknowledge s)
  if s.state.beforeEstablished then (-1, s)
  else
    let (sent, s) := sendData s
    (1, if sent then s else sendControl timers s)

/-- `recv_check` -/
def recvCheck (timers : Timers) (s : TcpStream) : TcpStream :=
  if !s.state.beforeEstablished && timers.noPkt then cleanup s else s

def tick (timers : Timers) (s : TcpStream) : TcpStream := (send timers (recvCheck timers s)).2

/-! ### Receiving -/

/-- The part of `check_InPkts` that stores the data of the next packet. -/
def pushData (data : List UInt8) (s : TcpStream) : TcpStream :=
  if s.outDataNet.length + data.length < maxSeg then { s with outDataNet := s.outDataNet ++ data }
  else
    let remSpace := maxSeg - s.outDataNet.length
    let db := s.outDataNet ++ data.take remSpace
    let remData := data.length - remSpace
    -- every further segment is copied from the same place
    let whole := List.replicate (remData / maxSeg) ((data.drop remSpace).take maxSeg)
    { s with
      outQueue := s.outQueue ++ db :: whole
      outDataNet := data.drop (data.length - remData % maxSeg) }

/-- What a packet with a fin does to the state. -/
def handleFin (s : TcpStream) : TcpStream :=
  let s := { sendAck s with inStreamActive := false }
  match s.state with
  | .established => { s with state := .closeWait }
  | .finWait1 => { s with state := .closing }
  | .finWait2 => cleanup { s with state := .timedWait }
  | _ => s

/-- What the acknowledgement of our own fin does to the state. -/
def handleFinAck (s : TcpStream) : TcpStream :=
  match s.state with
  | .finWait1 => { s with state := .finWait2 }
  | .lastAck => cleanup { s with state := .closed }
  | .closing => cleanup { s with state := .timedWait }
  | _ => s

/-- The acknowledgement that a packet carries, where it is news. -/
def noteAck (pkt : TcpPacket) (s : TcpStream) : TcpStream :=
  if pkt.hasAck && isOldSequence s.outAcked pkt.ackno then
    { s with outAcked := pkt.ackno, outWinSize := pkt.winsize.toUInt32 }
  else s

/-- `check_InPkts` on the packet that has been found. -/
def acceptPacket (pkt : TcpPacket) (s : TcpStream) : TcpStream :=
  let s := noteAck pkt { s with inAckno := pkt.seqno + pkt.datasize }
  let s := updateInWinSize (pushData pkt.data s)
  let s := if pkt.hasFin then handleFin s else s
  if pkt.hasAck && !s.outStreamActive && pkt.ackno = s.outSeqno then handleFinAck s else s

/-- The search of `check_InPkts`: the packet that is next, and the others without the old ones before
it. -/
def findNext (inAckno : UInt32) : List TcpPacket → Option TcpPacket × List TcpPacket
  | [] => (none, [])
  | pkt :: inPkt =>
      if pkt.seqno = inAckno then (some pkt, inPkt)
      else
        let (found, rest) := findNext inAckno inPkt
        if isOldSequence pkt.seqno inAckno then (found, rest) else (found, pkt :: rest)

/-- The loop of `check_InPkts`, which takes a packet out of `inPkt` in every round, and the states in
which packets have been accepted. -/
def checkInPktsFrom : Nat → TcpStream → List (TcpStream × TcpPacket) × TcpStream
  | 0, s => ([], s)
  | fuel + 1, s =>
      match findNext s.inAckno s.inPkt with
      | (none, inPkt) => ([], { s with inPkt })
      | (some pkt, inPkt) =>
          let s := { s with inPkt }
          let (accepted, after) := checkInPktsFrom fuel (acceptPacket pkt s)
          ((s, pkt) :: accepted, after)

def checkInPkts (s : TcpStream) : List (TcpStream × TcpPacket) × TcpStream :=
  checkInPktsFrom (s.inPkt.length + 1) s

/-- The acknowledgement and the window of a packet whose sequence number is in range. -/
def noteWindow (pkt : TcpPacket) (s : TcpStream) : TcpStream :=
  if !isOldSequence pkt.seqno s.inAckno && isOldSequence pkt.seqno (s.inAckno + s.maxWinSize) then
    { s with
      outAcked := if pkt.hasAck then pkt.ackno else s.outAcked
      outWinSize := pkt.winsize.toUInt32 }
  else sendAck s

def incomingEstablished (pkt : TcpPacket) (s : TcpStream) : TcpStream :=
  let s := noteWindow pkt s
  let inPkt := s.inPkt ++ [pkt]
  let inPkt := if inPkt.length > kMaxQueueSize then inPkt.drop 1 else inPkt
  (checkInPkts { s with inPkt }).2

/-! ### Connecting -/

/-- The sequence numbers and the congestion window at the start of a connection. -/
def startConnection (seqno : UInt32) (s : TcpStream) : TcpStream :=
  { s with
    outSeqno := seqno
    initOurSeqno := seqno
    outAcked := seqno
    congestThreshold := tcpMaxWin
    congestWinSize := UInt32.ofNat maxSeg
    congestUpdate := seqno + UInt32.ofNat maxSeg }

/-- `connect`; `seqno` is the random number of `genSequenceNo`. -/
def connect (seqno : UInt32) (s : TcpStream) : Int × TcpStream :=
  let s := { s with peerKnown := true }
  if s.state = .established then (0, s)
  else if s.state ≠ .closed then
    (-1, { s with errorState := if s.state.beforeEstablished then .again else .fault })
  else
    let s := { startConnection seqno s with inWinSize := s.maxWinSize }
    let s := toSend (TcpPacket.setSyn {}) true s
    (-1, { s with state := .synSent, errorState := .again })

def listenfor (s : TcpStream) : Int × TcpStream :=
  let s := { s with peerKnown := true }
  if s.state = .established then (0, s)
  else if s.state ≠ .closed ∧ !s.state.beforeEstablished then (-1, { s with errorState := .fault })
  else (-1, { s with errorState := .again })

def closeWrite (s : TcpStream) : Int × TcpStream :=
  let s := { s with outStreamActive := false }
  if s.state = .closed then (0, s) else (-1, { s with errorState := .again })

def close (s : TcpStream) : Int × TcpStream := (0, cleanup s)

def incomingClosed (seqno : UInt32) (pkt : TcpPacket) (s : TcpStream) : TcpStream :=
  if pkt.hasSyn && !pkt.hasAck then
    let s := { s with
      initPeerSeqno := pkt.seqno
      inAckno := pkt.seqno + 1
      outWinSize := pkt.winsize.toUInt32
      inWinSize := s.maxWinSize }
    let rsp : TcpPacket := {}
    let rsp := if s.state = .closed then rsp.setSyn else rsp
    let s := if s.state = .closed then startConnection seqno s else s
    { toSend (rsp.setAck s.inAckno) true s with state := .synRcvd }
  else s

def incomingSynSent (seqno : UInt32) (pkt : TcpPacket) (s : TcpStream) : TcpStream :=
  if pkt.hasSyn && pkt.hasAck then
    if pkt.ackno ≠ s.outSeqno then s
    else
      let s := { s with
        initPeerSeqno := pkt.seqno
        inAckno := pkt.seqno + 1
        outWinSize := pkt.winsize.toUInt32
        outAcked := pkt.ackno }
      { sendAck s with state := .established, outStreamActive := true, inStreamActive := true }
  else incomingClosed seqno pkt s

def incomingSynRcvd (pkt : TcpPacket) (s : TcpStream) : TcpStream :=
  if pkt.hasRst then { s with state := .closed }
  else if pkt.hasAck then
    if pkt.ackno ≠ s.outSeqno then s
    else
      let s := { s with
        inAckno := pkt.seqno
        outWinSize := pkt.winsize.toUInt32
        outAcked := pkt.ackno
        state := .established
        outStreamActive := true
        inStreamActive := true }
      if pkt.data ≠ [] then incomingEstablished pkt s else s
  else s

def handleIncoming (seqno : UInt32) (pkt : TcpPacket) (s : TcpStream) : TcpStream :=
  match s.state with
  | .closed | .listen => incomingClosed seqno pkt s
  | .synSent => incomingSynSent seqno pkt s
  | .synRcvd => incomingSynRcvd pkt s
  | .timedWait => { s with state := .closed }
  | .established | .finWait1 | .finWait2 | .closing | .closeWait | .lastAck =>
      incomingEstablished pkt s

def recvPkt (seqno : UInt32) (buf : List UInt8) (s : TcpStream) : TcpStream :=
  match TcpPacket.readPacket buf with
  | some pkt => handleIncoming seqno pkt s
  | none => s

/-! ### Runs -/

inductive Op
  | connect (seqno : UInt32)
  | listenfor
  | write (dta : List UInt8)
  | read (size : Int32)
  | closeWrite
  | close
  | recvPkt (seqno : UInt32) (buf : List UInt8)
  | tick (timers : Timers)
  deriving DecidableEq, Repr

def step (s : TcpStream) : Op → Option TcpStream
  | .connect seqno => some (connect seqno s).2
  | .listenfor => some (listenfor s).2
  | .write dta => some (write dta s).2
  | .read size => some (read size s).2.2
  | .closeWrite => some (closeWrite s).2
  | .close => some (close s).2
  | .recvPkt seqno buf => some (recvPkt seqno buf s)
  | .tick timers => some (tick timers s)

end RetroShare.Tcp
