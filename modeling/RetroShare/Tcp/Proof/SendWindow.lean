import RetroShare.Tcp.Proof.SoundRuns

/-!
# The send window

The bytes in transit are a difference of sequence numbers. `send` computes it by hand where the number
of the next byte has wrapped, and comes out one too low, so what it may send then is one byte more
than the window. New data goes out in consecutive packets; its end against the window is decided by
its amount alone.
-/

namespace RetroShare.Tcp

variable {s : TcpStream}

/-- How far a packet reaches behind the acknowledged bytes. -/
def reach (acked : UInt32) (d : Datagram) : Nat :=
  (d.pkt.seqno - acked).toNat + d.pkt.data.length

/-- New data that begins `offset` bytes behind the acknowledged ones, packet after packet. -/
def Consecutive (acked : UInt32) : Nat → List Datagram → Prop
  | _, [] => True
  | offset, d :: ds =>
      (d.pkt.seqno - acked).toNat = offset % 2 ^ 32 ∧ d.pkt.data ≠ [] ∧ d.again = false ∧
        Consecutive acked (offset + d.pkt.data.length) ds

def total (ds : List Datagram) : Nat := (ds.map (·.pkt.data.length)).sum

/-- The last packet reaches farthest. -/
theorem Consecutive.reach_le_iff {acked : UInt32} {ds : List Datagram} {offset bound : Nat}
    (hds : Consecutive acked offset ds) (hne : ds ≠ []) (hfits : offset + total ds ≤ 2 ^ 32) :
    (∀ d ∈ ds, reach acked d ≤ bound) ↔ offset + total ds ≤ bound := by
  induction ds generalizing offset with
  | nil => exact absurd rfl hne
  | cons d ds ih =>
      obtain ⟨hseqno, hdata, _, hrest⟩ := hds
      have hpos := List.length_pos_of_ne_nil hdata
      have htotal : total (d :: ds) = d.pkt.data.length + total ds := rfl
      rw [htotal] at hfits ⊢
      have hreach : reach acked d = offset + d.pkt.data.length := by
        rw [reach, hseqno, Nat.mod_eq_of_lt (by omega)]
      rw [List.forall_mem_cons, hreach]
      cases ds with
      | nil => simp [total]
      | cons d' ds =>
          rw [ih hrest (List.cons_ne_nil _ _) (by omega), ← Nat.add_assoc]
          omega

theorem Consecutive.total_ne_zero {acked : UInt32} {ds : List Datagram} {offset : Nat}
    (hds : Consecutive acked offset ds) (hne : ds ≠ []) : total ds ≠ 0 := by
  cases ds with
  | nil => exact absurd rfl hne
  | cons d ds =>
      have hpos := List.length_pos_of_ne_nil hds.2.1
      have htotal : total (d :: ds) = d.pkt.data.length + total ds := rfl
      omega

/-! ### Frames -/

theorem toSend_frame (pkt : TcpPacket) (retrans : Bool) (s : TcpStream) :
    ∃ seqno lastAck lastSize wire timer outPkt, toSend pkt retrans s = { s with
      outSeqno := seqno, lastSentAck := lastAck, lastSentWinSize := lastSize, wire := wire
      retransTimerOn := timer, outPkt := outPkt } := by
  unfold toSend
  dsimp only
  split
  · exact ⟨_, _, _, _, _, _, rfl⟩
  · split <;> exact ⟨_, _, _, _, _, _, rfl⟩

theorem wire_toSend (pkt : TcpPacket) (retrans : Bool) (s : TcpStream) :
    (toSend pkt retrans s).wire =
      if s.peerKnown then s.wire ++ [⟨complete pkt s, false⟩] else s.wire := by
  unfold toSend
  cases s.peerKnown <;> cases retrans <;> rfl

theorem data_complete (pkt : TcpPacket) (s : TcpStream) : (complete pkt s).data = pkt.data := by
  unfold complete
  dsimp only
  split <;> rfl

theorem seqno_complete (pkt : TcpPacket) (s : TcpStream) : (complete pkt s).seqno = s.outSeqno := by
  unfold complete
  dsimp only
  split <;> rfl

theorem outSeqno_toSend_data (data : List UInt8) (retrans : Bool) (hpeer : s.peerKnown = true) :
    (toSend { data := data } retrans s).outSeqno = s.outSeqno + UInt32.ofNat data.length := by
  have hsyn : TcpPacket.hasSyn { data := data } = false := by simp [TcpPacket.hasSyn]
  unfold toSend
  rw [hpeer]
  cases retrans
  · simp [hsyn, TcpPacket.datasize]
  · simp [hsyn, TcpPacket.datasize]

/-! ### New data -/

/-- From `s` to `t` an amount of new data has gone out, the first of it `offset` bytes behind the
acknowledged ones; the windows have not moved. -/
structure PutsOut (offset amount : Nat) (s t : TcpStream) : Prop where
  wire : ∃ ds, t.wire = s.wire ++ ds ∧ Consecutive s.outAcked offset ds ∧ total ds = amount
  outAcked : t.outAcked = s.outAcked
  outWinSize : t.outWinSize = s.outWinSize
  congestWinSize : t.congestWinSize = s.congestWinSize
  peerKnown : t.peerKnown = s.peerKnown
  state : t.state = s.state

theorem PutsOut.refl (offset : Nat) (s : TcpStream) : PutsOut offset 0 s s :=
  ⟨⟨[], (List.append_nil _).symm, trivial, rfl⟩, rfl, rfl, rfl, rfl, rfl⟩

theorem Consecutive.append {acked : UInt32} {ds es : List Datagram} {offset : Nat}
    (hds : Consecutive acked offset ds) (hes : Consecutive acked (offset + total ds) es) :
    Consecutive acked offset (ds ++ es) := by
  induction ds generalizing offset with
  | nil => exact hes
  | cons d ds ih =>
      obtain ⟨hseqno, hdata, hagain, hrest⟩ := hds
      refine ⟨hseqno, hdata, hagain, ih hrest ?_⟩
      rw [Nat.add_assoc]
      exact hes

theorem PutsOut.trans {offset amount amount' : Nat} {t u : TcpStream}
    (hst : PutsOut offset amount s t) (htu : PutsOut (offset + amount) amount' t u) :
    PutsOut offset (amount + amount') s u := by
  obtain ⟨ds, hwire, hds, htotal⟩ := hst.wire
  obtain ⟨es, hwire', hes, htotal'⟩ := htu.wire
  rw [hst.outAcked, ← htotal] at hes
  refine ⟨⟨ds ++ es, ?_, hds.append hes, ?_⟩, htu.outAcked.trans hst.outAcked,
    htu.outWinSize.trans hst.outWinSize, htu.congestWinSize.trans hst.congestWinSize,
    htu.peerKnown.trans hst.peerKnown, htu.state.trans hst.state⟩
  · rw [hwire', hwire, List.append_assoc]
  · rw [← htotal, ← htotal', total, List.map_append, List.sum_append]
    rfl

/-- The offset of the next byte, with the wraps it has made. -/
def OffsetIs (offset : Nat) (s : TcpStream) : Prop :=
  (s.outSeqno - s.outAcked).toNat = offset % 2 ^ 32

theorem toSend_putsOut {data : List UInt8} (hdata : data ≠ []) (hpeer : s.peerKnown = true)
    {offset : Nat} (hoffset : OffsetIs offset s) :
    PutsOut offset data.length s (toSend { data := data } true s) := by
  obtain ⟨seqno, lastAck, lastSize, wire, timer, outPkt, hframe⟩ :=
    toSend_frame { data := data } true s
  have hwire := wire_toSend { data := data } true s
  rw [if_pos hpeer] at hwire
  refine ⟨⟨_, hwire, ⟨?_, ?_, rfl, trivial⟩, ?_⟩, ?_, ?_, ?_, ?_, ?_⟩
  · rw [seqno_complete]
    exact hoffset
  · rw [data_complete]
    exact hdata
  · simp [total, data_complete]
  all_goals rw [hframe]

theorem offsetIs_toSend {data : List UInt8} (hpeer : s.peerKnown = true) {offset : Nat}
    (hoffset : OffsetIs offset s) :
    OffsetIs (offset + data.length) (toSend { data := data } true s) := by
  obtain ⟨seqno, lastAck, lastSize, wire, timer, outPkt, hframe⟩ :=
    toSend_frame { data := data } true s
  have hseqno := outSeqno_toSend_data data true hpeer
  have hacked : (toSend { data := data } true s).outAcked = s.outAcked := by rw [hframe]
  have hadd : s.outSeqno + UInt32.ofNat data.length - s.outAcked =
      (s.outSeqno - s.outAcked) + UInt32.ofNat data.length := by
    rw [UInt32.sub_eq_add_neg, UInt32.sub_eq_add_neg, UInt32.add_assoc, UInt32.add_assoc,
      UInt32.add_comm (UInt32.ofNat _)]
  rw [OffsetIs, hseqno, hacked, hadd, UInt32.toNat_add, UInt32.toNat_ofNat', hoffset]
  simp

theorem toSend_of_unknown (pkt : TcpPacket) (retrans : Bool) (hpeer : s.peerKnown = false) :
    toSend pkt retrans s = s := by
  rw [toSend, hpeer]
  rfl

/-- What the loop over whole segments has done. -/
structure SegmentsSent (offset : Nat) (maxsend : UInt32) (s : TcpStream)
    (outcome : Nat × UInt32 × TcpStream) : Prop where
  count : outcome.1 = min s.inQueue.length (maxsend.toNat / maxSeg)
  left : outcome.2.1.toNat = maxsend.toNat - maxSeg * outcome.1
  putsOut : PutsOut offset (maxSeg * outcome.1) s outcome.2.2
  offsetIs : OffsetIs (offset + maxSeg * outcome.1) outcome.2.2
  inQueue : outcome.2.2.inQueue = s.inQueue.drop outcome.1
  inData : outcome.2.2.inData = s.inData

theorem sendSegments_sent (inQueue : List (List UInt8)) :
    ∀ (maxsend : UInt32) (s : TcpStream) (offset : Nat), s.inQueue = inQueue →
      (∀ db ∈ inQueue, db.length = maxSeg) → s.peerKnown = true → OffsetIs offset s →
      SegmentsSent offset maxsend s (sendSegments inQueue maxsend s) := by
  induction inQueue with
  | nil =>
      intro maxsend s offset hqueue _ _ hoffset
      refine ⟨?_, rfl, .refl offset s, hoffset, rfl, rfl⟩
      rw [hqueue]
      exact (Nat.zero_min _).symm
  | cons db inQueue ih =>
      intro maxsend s offset hqueue hwhole hpeer hoffset
      have hmax : maxSeg = 1000 := rfl
      have hdb := hwhole db (List.mem_cons_self ..)
      rw [sendSegments]
      split_ifs with hroom
      · have hne : db ≠ [] := List.ne_nil_of_length_pos (hdb ▸ maxSeg_pos)
        have hput : PutsOut offset db.length s (toSend { data := db } true { s with inQueue }) := by
          have hsent := toSend_putsOut (s := { s with inQueue }) hne hpeer hoffset
          exact ⟨hsent.wire, hsent.outAcked, hsent.outWinSize, hsent.congestWinSize,
            hsent.peerKnown, hsent.state⟩
        have hoffset' := @offsetIs_toSend { s with inQueue } db hpeer offset hoffset
        obtain ⟨seqno, lastAck, lastSize, wire, timer, outPkt, hframe⟩ :=
          toSend_frame { data := db } true { s with inQueue }
        have hqueue' : (toSend { data := db } true { s with inQueue }).inQueue = inQueue := by
          rw [hframe]
        have hdata' : (toSend { data := db } true { s with inQueue }).inData = s.inData := by
          rw [hframe]
        have hsub : (maxsend - UInt32.ofNat maxSeg).toNat = maxsend.toNat - maxSeg := by
          rw [UInt32.toNat_sub_of_le _ _ (by rw [UInt32.le_iff_toNat_le]; exact hroom)]
          rfl
        rw [hdb] at hput hoffset'
        have hrest := ih (maxsend - UInt32.ofNat maxSeg) _ (offset + maxSeg) hqueue'
          (fun db' hmem => hwhole db' (List.mem_cons_of_mem _ hmem))
          (hput.peerKnown.trans hpeer) hoffset'
        obtain ⟨hcount, hleft, hputs, hoffset'', hqueue'', hdata''⟩ := hrest
        rw [hqueue', hsub] at hcount
        have hamount : ∀ count, maxSeg + maxSeg * count = maxSeg * (count + 1) :=
          fun count => by rw [Nat.mul_succ, Nat.add_comm]
        refine ⟨?_, ?_, ?_, ?_, ?_, ?_⟩
        · have hdiv := Nat.div_eq_sub_div maxSeg_pos hroom
          rw [hqueue, List.length_cons, hdiv, Nat.add_min_add_right]
          exact congrArg (· + 1) hcount
        · rw [← hamount, Nat.sub_add_eq, ← hsub]
          exact hleft
        · rw [← hamount]
          exact hput.trans hputs
        · rw [← hamount, ← Nat.add_assoc]
          exact hoffset''
        · rw [hqueue]
          exact hqueue''.trans (by rw [hqueue']; rfl)
        · exact hdata''.trans hdata'
      · have hnone : maxsend.toNat / maxSeg = 0 := Nat.div_eq_of_lt (Nat.lt_of_not_le hroom)
        refine ⟨?_, rfl, .refl offset s, hoffset, rfl, rfl⟩
        rw [hnone]
        exact (Nat.min_zero _).symm

/-- How much new data goes out when `room` bytes may. -/
def amountFor (room : Nat) (s : TcpStream) : Nat :=
  if s.inQueue = [] then if s.inData.length ≤ room then s.inData.length else 0
  else maxSeg * min s.inQueue.length (room / maxSeg)

/-- The bytes in transit. -/
def unacked (s : TcpStream) : Nat := (s.outSeqno - s.outAcked).toNat

theorem sendPartial_putsOut {offset sent : Nat} {maxsend left : UInt32} {t : TcpStream}
    (hsent : SegmentsSent offset maxsend s (sent, left, t)) (hpeer : s.peerKnown = true) :
    PutsOut offset (amountFor maxsend.toNat s) s (sendPartial sent left t).2 := by
  obtain ⟨hcount, hleft, hputs, hoffset, hqueue, hdata⟩ := hsent
  dsimp only at hcount hleft hputs hoffset hqueue hdata
  unfold sendPartial amountFor
  by_cases hempty : s.inQueue = []
  · have hzero : sent = 0 := by
      rw [hcount, hempty]
      exact Nat.zero_min _
    have hdrained : t.inQueue = [] := by rw [hqueue, hempty, List.drop_nil]
    rw [hzero, Nat.mul_zero] at hputs hoffset
    rw [hzero, Nat.mul_zero, Nat.sub_zero] at hleft
    rw [if_pos hempty]
    have hsame : t.inData.length = s.inData.length := by rw [hdata]
    by_cases hroom : s.inData.length ≤ maxsend.toNat
    · rw [if_pos hroom]
      by_cases hsome : s.inData = []
      · rw [if_neg (by simp [hdata, hsome]), hsome]
        exact hputs
      · rw [if_pos ⟨hzero, hdrained, by omega, hdata ▸ hsome⟩, hdata]
        have hlast := toSend_putsOut (s := { t with inData := [] }) hsome
          (hputs.peerKnown.trans hpeer) hoffset
        have hboth := hputs.trans ⟨hlast.wire, hlast.outAcked, hlast.outWinSize,
          hlast.congestWinSize, hlast.peerKnown, hlast.state⟩
        rw [Nat.zero_add] at hboth
        exact hboth
    · rw [if_neg hroom, if_neg (by omega)]
      exact hputs
  · rw [if_neg hempty, if_neg, ← hcount]
    · exact hputs
    · rintro ⟨hnone, hdrained, _⟩
      rw [hnone] at hqueue
      exact hempty (hqueue.symm.trans hdrained)

theorem sendData_putsOut (hsound : s.Sound) (hpeer : s.peerKnown = true) :
    PutsOut (unacked s) (amountFor (maxSend s).toNat s) s (sendData s).2 := by
  have hoffset : OffsetIs (unacked s) s := (Nat.mod_eq_of_lt (UInt32.toNat_lt _)).symm
  exact sendPartial_putsOut
    (sendSegments_sent s.inQueue (maxSend s) s _ rfl hsound.inQueue hpeer hoffset) hpeer

/-! ### The window -/

/-- What may be unacknowledged. -/
def window (s : TcpStream) : Nat := min s.outWinSize.toNat s.congestWinSize.toNat

/-- Behind a wrap the bytes in transit are counted one too low. -/
theorem toNat_inTransit (s : TcpStream) :
    (s.outSeqno < s.outAcked → (inTransit s).toNat + 1 = unacked s) ∧
      (¬ s.outSeqno < s.outAcked → (inTransit s).toNat = unacked s) := by
  constructor
  · intro hwrap
    have hseqno := s.outSeqno.toNat_lt
    have hacked := s.outAcked.toNat_lt
    have hmax : tcpMaxSeq.toNat = 4294967295 := rfl
    unfold inTransit unacked
    rw [if_pos hwrap, UInt32.toNat_add, UInt32.toNat_sub, UInt32.toNat_sub, hmax]
    rw [UInt32.lt_iff_toNat_lt] at hwrap
    omega
  · intro hwrap
    rw [inTransit, if_neg hwrap]
    rfl

theorem toNat_maxSend (s : TcpStream) :
    (maxSend s).toNat = window s - (inTransit s).toNat := by
  have hwindow : (if s.outWinSize < s.congestWinSize then s.outWinSize else s.congestWinSize).toNat =
      window s := by
    rw [window, min_def]
    split_ifs with hlt hle hle
    · rfl
    · rw [UInt32.lt_iff_toNat_lt] at hlt
      omega
    · rw [UInt32.lt_iff_toNat_lt] at hlt
      omega
    · rfl
  unfold maxSend
  rw [← hwindow]
  generalize (if s.outWinSize < s.congestWinSize then s.outWinSize else s.congestWinSize) = size
  dsimp only
  split
  · next hroom =>
    rw [gt_iff_lt, UInt32.lt_iff_toNat_lt] at hroom
    exact UInt32.toNat_sub_of_le _ _ (UInt32.le_iff_toNat_le.mpr hroom.le)
  · next hroom =>
    rw [gt_iff_lt, UInt32.lt_iff_toNat_lt] at hroom
    exact (Nat.sub_eq_zero_of_le (by omega)).symm

/-- The new data of a call, out of what it has put on the wire. -/
def newData (s t : TcpStream) : List Datagram :=
  (t.wire.drop s.wire.length).filter fun d => !d.again && d.pkt.data ≠ []

/-- New data goes out only within the window. -/
def RespectsWindow (timers : Timers) (s : TcpStream) : Prop :=
  ∀ d ∈ newData s (send timers s).2, reach (send timers s).2.outAcked d ≤ window (send timers s).2

/-- The amounts that may go out at once: whole segments, or what is left where there are none. -/
def Amount (n : Nat) (s : TcpStream) : Prop :=
  (∃ count, 0 < count ∧ count ≤ s.inQueue.length ∧ n = maxSeg * count) ∨
    s.inQueue = [] ∧ s.inData ≠ [] ∧ n = s.inData.length

/-- The number of the next byte has wrapped, and some amount ends one byte behind the window. -/
def Overshoots (s : TcpStream) : Prop :=
  s.outSeqno < s.outAcked ∧ ∃ n, Amount n s ∧ unacked s + n = window s + 1

/-- With one byte more than the window has room for, some amount goes out beyond it exactly when it
takes them all. -/
theorem amountFor_overshoots_iff {room : Nat} (hroom : unacked s + room = window s + 1) :
    (amountFor room s ≠ 0 ∧ window s < unacked s + amountFor room s) ↔
      ∃ n, Amount n s ∧ unacked s + n = window s + 1 := by
  have hmax : maxSeg = 1000 := rfl
  unfold amountFor Amount
  by_cases hempty : s.inQueue = []
  · rw [if_pos hempty, hempty]
    constructor
    · rintro ⟨hsome, hover⟩
      split_ifs at hsome hover with hfits
      · exact ⟨_, .inr ⟨rfl, List.ne_nil_of_length_pos (Nat.pos_of_ne_zero hsome), rfl⟩, by omega⟩
      · exact absurd rfl hsome
    · rintro ⟨n, ⟨count, hpos, hcount, _⟩ | ⟨_, hdata, rfl⟩, hends⟩
      · rw [List.length_nil] at hcount
        omega
      · have hpos := List.length_pos_of_ne_nil hdata
        rw [if_pos (by omega)]
        omega
  · rw [if_neg hempty]
    have hdiv := Nat.div_add_mod room maxSeg
    have hmod := Nat.mod_lt room maxSeg_pos
    constructor
    · rintro ⟨hsome, hover⟩
      refine ⟨_, .inl ⟨min s.inQueue.length (room / maxSeg), ?_, Nat.min_le_left _ _, rfl⟩, ?_⟩
      · exact Nat.pos_of_ne_zero fun hzero => hsome (by rw [hzero, Nat.mul_zero])
      · have hle : maxSeg * min s.inQueue.length (room / maxSeg) ≤ maxSeg * (room / maxSeg) :=
          Nat.mul_le_mul_left _ (Nat.min_le_right _ _)
        omega
    · rintro ⟨n, ⟨count, hpos, hcount, rfl⟩ | ⟨hnone, _⟩, hends⟩
      · have hquot : room / maxSeg = count := by
          have heq : room = maxSeg * count := by omega
          rw [heq, Nat.mul_div_cancel_left _ maxSeg_pos]
        rw [hquot, Nat.min_eq_right hcount]
        have := Nat.mul_pos maxSeg_pos hpos
        omega
      · exact absurd hnone hempty

theorem amountFor_le (room : Nat) (s : TcpStream) : amountFor room s ≤ room := by
  unfold amountFor
  split_ifs with hempty hfits
  · exact hfits
  · exact Nat.zero_le _
  · exact le_trans (Nat.mul_le_mul_left _ (Nat.min_le_right _ _)) (Nat.mul_div_le _ _)

theorem not_overshoots_of_full (hfull : window s < unacked s) :
    ¬ ∃ n, Amount n s ∧ unacked s + n = window s + 1 := by
  rintro ⟨n, hamount, hends⟩
  have hpos : 0 < n := by
    rcases hamount with ⟨count, hpos, _, rfl⟩ | ⟨_, hdata, rfl⟩
    · exact Nat.mul_pos maxSeg_pos hpos
    · exact List.length_pos_of_ne_nil hdata
  omega

/-- What goes out ends beyond the window exactly where it overshoots. -/
theorem amount_iff (s : TcpStream) :
    (amountFor (maxSend s).toNat s = 0 ∨
        unacked s + amountFor (maxSend s).toNat s ≤ window s) ↔ ¬ Overshoots s := by
  have hle := amountFor_le (maxSend s).toNat s
  have hroom := toNat_maxSend s
  by_cases hwrap : s.outSeqno < s.outAcked
  · have htransit := (toNat_inTransit s).1 hwrap
    by_cases hfull : window s < unacked s
    · exact iff_of_true (.inl (by omega)) fun hover => not_overshoots_of_full hfull hover.2
    · have hends : unacked s + (maxSend s).toNat = window s + 1 := by omega
      rw [Overshoots, and_iff_right hwrap, ← amountFor_overshoots_iff hends, not_and_or, not_not,
        not_lt]
  · have htransit := (toNat_inTransit s).2 hwrap
    refine iff_of_true ?_ fun hover => hwrap hover.1
    omega

theorem unacked_add_amountFor_le (s : TcpStream) :
    unacked s + amountFor (maxSend s).toNat s ≤ 2 ^ 32 := by
  have hle := amountFor_le (maxSend s).toNat s
  have hroom := toNat_maxSend s
  have hless := s.outWinSize.toNat_lt
  have hwindow : window s ≤ s.outWinSize.toNat := min_le_left _ _
  have hlt : unacked s < 2 ^ 32 := UInt32.toNat_lt _
  by_cases hwrap : s.outSeqno < s.outAcked
  · have htransit := (toNat_inTransit s).1 hwrap
    omega
  · have htransit := (toNat_inTransit s).2 hwrap
    omega

/-! ### A call -/

theorem acknowledge_wire (s : TcpStream) : (acknowledge s).wire = s.wire := by
  have hwiden : ∀ t : TcpStream, (widen t).wire = t.wire := by
    intro t
    unfold widen
    split_ifs <;> rfl
  have hclear : ∀ (outPkt : List TcpPacket) (t : TcpStream), (clearAcked outPkt t).wire = t.wire := by
    intro outPkt
    induction outPkt with
    | nil => exact fun _ => rfl
    | cons pkt outPkt ih =>
        intro t
        rw [clearAcked]
        split_ifs
        · rw [ih, hwiden]
        · rfl
  unfold acknowledge
  dsimp only
  split_ifs <;> exact hclear _ _

theorem retrans_wire (timers : Timers) (s : TcpStream) :
    ∃ ds, (retrans timers s).wire = s.wire ++ ds ∧ ∀ d ∈ ds, d.again = true := by
  unfold retrans
  split
  · exact ⟨[], (List.append_nil _).symm, List.forall_mem_nil _⟩
  · split
    · exact ⟨[], (List.append_nil _).symm, List.forall_mem_nil _⟩
    · dsimp only
      split_ifs
      all_goals first
        | exact ⟨[], (List.append_nil _).symm, List.forall_mem_nil _⟩
        | exact ⟨[_], rfl, fun d hd => by rw [List.mem_singleton.mp hd]⟩

/-- Packets without data, and windows that have not moved. -/
theorem sendControl_frame (timers : Timers) (s : TcpStream) :
    (∃ ds, (sendControl timers s).wire = s.wire ++ ds ∧ ∀ d ∈ ds, d.pkt.data = []) ∧
      (sendControl timers s).outAcked = s.outAcked ∧
      window (sendControl timers s) = window s := by
  have hsend : ∀ pkt : TcpPacket, pkt.data = [] →
      (∃ ds, (toSend pkt false s).wire = s.wire ++ ds ∧ ∀ d ∈ ds, d.pkt.data = []) ∧
        (toSend pkt false s).outAcked = s.outAcked ∧ window (toSend pkt false s) = window s := by
    intro pkt hdata
    obtain ⟨seqno, lastAck, lastSize, wire, timer, outPkt, hframe⟩ := toSend_frame pkt false s
    refine ⟨?_, by rw [hframe], by rw [hframe]; rfl⟩
    rw [wire_toSend]
    split_ifs
    · refine ⟨_, rfl, fun d hd => ?_⟩
      rw [List.mem_singleton.mp hd, data_complete]
      exact hdata
    · exact ⟨[], (List.append_nil _).symm, List.forall_mem_nil _⟩
  unfold sendControl
  dsimp only
  split_ifs
  · exact hsend _ rfl
  · exact hsend _ rfl
  · exact hsend _ rfl
  · exact ⟨⟨[], (List.append_nil _).symm, List.forall_mem_nil _⟩, rfl, rfl⟩

theorem sendSegments_of_unknown (inQueue : List (List UInt8)) :
    ∀ (maxsend : UInt32) (s : TcpStream), s.peerKnown = false →
      (sendSegments inQueue maxsend s).2.2.wire = s.wire ∧
        (sendSegments inQueue maxsend s).2.2.peerKnown = false := by
  induction inQueue with
  | nil => exact fun _ _ hpeer => ⟨rfl, hpeer⟩
  | cons db inQueue ih =>
      intro maxsend s hpeer
      rw [sendSegments]
      split_ifs
      · have hsame := toSend_of_unknown (s := { s with inQueue }) { data := db } true hpeer
        rw [hsame]
        exact ih _ { s with inQueue } hpeer
      · exact ⟨rfl, hpeer⟩

theorem sendPartial_of_unknown (sent : Nat) (maxsend : UInt32) (hpeer : s.peerKnown = false) :
    (sendPartial sent maxsend s).2.wire = s.wire := by
  unfold sendPartial
  split
  · rw [toSend_of_unknown (s := { s with inData := [] }) _ true hpeer]
  · rfl

theorem sendData_of_unknown (hpeer : s.peerKnown = false) : (sendData s).2.wire = s.wire := by
  obtain ⟨hwire, hpeer'⟩ := sendSegments_of_unknown s.inQueue (maxSend s) s hpeer
  exact (sendPartial_of_unknown _ _ hpeer').trans hwire

theorem Consecutive.new {acked : UInt32} {ds : List Datagram} {offset : Nat}
    (hds : Consecutive acked offset ds) : ∀ d ∈ ds, (!d.again && d.pkt.data ≠ []) = true := by
  induction ds generalizing offset with
  | nil => exact List.forall_mem_nil _
  | cons d ds ih =>
      obtain ⟨_, hdata, hagain, hrest⟩ := hds
      refine List.forall_mem_cons.mpr ⟨?_, ih hrest⟩
      simp [hagain, hdata]

/-- Retransmissions before the new data, packets without data behind it. -/
theorem newData_eq {t : TcpStream} {before new after : List Datagram}
    (hwire : t.wire = s.wire ++ before ++ new ++ after) (hbefore : ∀ d ∈ before, d.again = true)
    (hnew : ∀ d ∈ new, (!d.again && d.pkt.data ≠ []) = true)
    (hafter : ∀ d ∈ after, d.pkt.data = []) : newData s t = new := by
  have hold : before.filter (fun d => !d.again && d.pkt.data ≠ []) = [] := by
    rw [List.filter_eq_nil_iff]
    intro d hd
    simp [hbefore d hd]
  have hempty : after.filter (fun d => !d.again && d.pkt.data ≠ []) = [] := by
    rw [List.filter_eq_nil_iff]
    intro d hd
    simp [hafter d hd]
  rw [newData, hwire, List.append_assoc, List.append_assoc, List.drop_left, List.filter_append,
    List.filter_append, hold, hempty, List.filter_eq_self.mpr hnew, List.nil_append,
    List.append_nil]

/-- The state in which `send` looks at the window. -/
def ready (timers : Timers) (s : TcpStream) : TcpStream := retrans timers (acknowledge s)

theorem ready_wire (timers : Timers) (s : TcpStream) :
    ∃ ds, (ready timers s).wire = s.wire ++ ds ∧ ∀ d ∈ ds, d.again = true := by
  have hretrans := retrans_wire timers (acknowledge s)
  rw [acknowledge_wire] at hretrans
  exact hretrans

/-- A call that may send data. -/
theorem send_eq (timers : Timers) (hestablished : (ready timers s).state.beforeEstablished = false) :
    (send timers s).2 =
      if (sendData (ready timers s)).1 then (sendData (ready timers s)).2
      else sendControl timers (sendData (ready timers s)).2 := by
  unfold send
  dsimp only
  rw [if_neg]
  · rfl
  · rw [Bool.not_eq_true]
    exact hestablished

/-- What follows the new data changes nothing that the window is about. -/
theorem send_after_data (timers : Timers)
    (hestablished : (ready timers s).state.beforeEstablished = false) :
    (∃ ds, (send timers s).2.wire = (sendData (ready timers s)).2.wire ++ ds ∧
        ∀ d ∈ ds, d.pkt.data = []) ∧
      (send timers s).2.outAcked = (sendData (ready timers s)).2.outAcked ∧
      window (send timers s).2 = window (sendData (ready timers s)).2 := by
  rw [send_eq timers hestablished]
  split
  · exact ⟨⟨[], (List.append_nil _).symm, List.forall_mem_nil _⟩, rfl, rfl⟩
  · exact sendControl_frame timers _

/-- **The send window.** A call of `send` on a connection with a known peer puts new data beyond the
window on the wire exactly when the number of the next byte has wrapped and whole segments, or what is
left where there are none, end one byte behind the window. -/
theorem respectsWindow_iff (timers : Timers) (s : TcpStream) (hsound : s.Sound) :
    RespectsWindow timers s ↔
      ((ready timers s).peerKnown = true → (ready timers s).state.beforeEstablished = false →
        ¬ Overshoots (ready timers s)) := by
  obtain ⟨before, hbefore, hagain⟩ := ready_wire timers s
  by_cases hstate : (ready timers s).state.beforeEstablished = true
  · refine iff_of_true ?_ fun _ hestablished => absurd hstate (by simp [hestablished])
    have hsend : (send timers s).2 = ready timers s := by
      unfold send
      dsimp only
      rw [if_pos]
      · rfl
      · exact hstate
    have hnone : newData s (send timers s).2 = [] := by
      refine newData_eq ?_ hagain (List.forall_mem_nil _)
        (List.forall_mem_nil _)
      rw [hsend, hbefore]
      simp
    rw [RespectsWindow, hnone]
    exact List.forall_mem_nil _
  · rw [Bool.not_eq_true] at hstate
    obtain ⟨⟨after, hafter, hempty⟩, hacked, hwindow⟩ := send_after_data (s := s) timers hstate
    cases hpeer : (ready timers s).peerKnown with
    | false =>
        refine iff_of_true ?_ fun hknown => absurd hknown (by simp)
        have hnone : newData s (send timers s).2 = [] := by
          refine newData_eq ?_ hagain (List.forall_mem_nil _) hempty
          rw [hafter, sendData_of_unknown hpeer, hbefore, List.append_nil]
        rw [RespectsWindow, hnone]
        exact List.forall_mem_nil _
    | true =>
        have hready : (ready timers s).Sound :=
          retrans_sound (hsound.congr (acknowledge_buffers s)) timers
        have hputs := sendData_putsOut hready hpeer
        obtain ⟨new, hnew, hconsecutive, htotal⟩ := hputs.wire
        have hdata : newData s (send timers s).2 = new := by
          refine newData_eq ?_ hagain hconsecutive.new hempty
          rw [hafter, hnew, hbefore]
        have hsame : window (sendData (ready timers s)).2 = window (ready timers s) := by
          rw [window, hputs.outWinSize, hputs.congestWinSize]
          rfl
        rw [RespectsWindow, hdata, hacked, hwindow, hputs.outAcked, hsame]
        have hlimit := unacked_add_amountFor_le (ready timers s)
        rw [← htotal] at hlimit
        have hover := amount_iff (ready timers s)
        rw [← htotal] at hover
        have hall : (∀ d ∈ new, reach (ready timers s).outAcked d ≤ window (ready timers s)) ↔
            ¬ Overshoots (ready timers s) := by
          rw [← hover]
          rcases eq_or_ne new [] with rfl | hne
          · exact iff_of_true (List.forall_mem_nil _) (.inl rfl)
          · rw [hconsecutive.reach_le_iff hne hlimit, or_iff_right]
            exact hconsecutive.total_ne_zero hne
        rw [hall]
        simp [hstate]

/-- No timer has run out. -/
def quiet : Timers := ⟨false, false, false, false⟩

/-- One byte to send, one in transit, and room for ten. -/
def oneByte : TcpStream where
  inData := [7]
  state := .established
  outStreamActive := true
  outSeqno := 5
  outAcked := 4
  outWinSize := 10
  peerKnown := true

theorem respectsWindow_oneByte : RespectsWindow quiet oneByte := by
  have hsound : oneByte.Sound := ⟨by decide, nofun, by decide, nofun, by decide⟩
  refine (respectsWindow_iff quiet oneByte hsound).mpr fun _ _ hover => absurd hover.1 ?_
  decide

/-- The byte in transit is the last before the wrap, and the window is of one byte: `send` finds no byte
in transit, and sends a second one. -/
def wrapped : TcpStream where
  inData := [7]
  state := .established
  outStreamActive := true
  outSeqno := 0
  outAcked := 0xffffffff
  outWinSize := 1
  peerKnown := true

theorem respectsWindow_counterexample :
    wrapped.Sound ∧ unacked wrapped < 2 ^ 31 ∧ ¬ RespectsWindow quiet wrapped := by
  refine ⟨⟨by decide, nofun, by decide, nofun, by decide⟩, by decide, ?_⟩
  intro hrespects
  have hsent : newData wrapped (send quiet wrapped).2 =
      [⟨complete { data := [7] } wrapped, false⟩] := by decide
  have hreach := hrespects _ (hsent ▸ List.mem_singleton.mpr rfl)
  exact absurd hreach (by decide)

end RetroShare.Tcp
