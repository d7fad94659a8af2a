import RetroShare.Tcp.Proof.Buffers
import RetroShare.Foundation.Transition

/-!
# Sound buffers in every run

Most of a stream's functions leave its buffers alone or empty all of them. Those that do neither take
segments from a queue or put whole ones there.
-/

namespace RetroShare.Tcp

open Segments Transition

variable {s t : TcpStream}

def TcpStream.buffers (s : TcpStream) :
    List UInt8 × List (List UInt8) × List UInt8 × List (List UInt8) × List UInt8 :=
  (s.inData, s.inQueue, s.outDataRead, s.outQueue, s.outDataNet)

/-- Sound buffers stay sound when other fields change. -/
theorem TcpStream.Sound.of_fields (hsound : s.Sound) (hinData : t.inData = s.inData)
    (hinQueue : t.inQueue = s.inQueue) (hread : t.outDataRead = s.outDataRead)
    (hqueue : t.outQueue = s.outQueue) (hnet : t.outDataNet = s.outDataNet) : t.Sound :=
  ⟨hinData ▸ hsound.1, hinQueue ▸ hsound.2, hread ▸ hsound.3, hqueue ▸ hsound.4, hnet ▸ hsound.5⟩

theorem TcpStream.Sound.congr (hsound : s.Sound) (hsame : t.buffers = s.buffers) : t.Sound := by
  simp only [TcpStream.buffers, Prod.mk.injEq] at hsame
  obtain ⟨hinData, hinQueue, hread, hqueue, hnet⟩ := hsame
  exact hsound.of_fields hinData hinQueue hread hqueue hnet

theorem sound_of_empty (hsame : t.buffers = ([], [], [], [], [])) : t.Sound := by
  simp only [TcpStream.buffers, Prod.mk.injEq] at hsame
  obtain ⟨hinData, hinQueue, hread, hqueue, hnet⟩ := hsame
  exact ⟨hinData ▸ maxSeg_pos, hinQueue ▸ nofun, hread ▸ maxSeg_pos, hqueue ▸ nofun,
    hnet ▸ maxSeg_pos⟩

/-! ### Sending -/

theorem toSend_buffers (pkt : TcpPacket) (retrans : Bool) (s : TcpStream) :
    (toSend pkt retrans s).buffers = s.buffers := by
  unfold toSend TcpStream.buffers
  split_ifs <;> rfl

theorem cleanup_sound (s : TcpStream) : (cleanup s).Sound := sound_of_empty rfl

theorem widen_buffers (s : TcpStream) : (widen s).buffers = s.buffers := by
  unfold widen TcpStream.buffers
  split_ifs <;> rfl

theorem clearAcked_buffers (outPkt : List TcpPacket) (s : TcpStream) :
    (clearAcked outPkt s).buffers = s.buffers := by
  induction outPkt generalizing s with
  | nil => rfl
  | cons pkt outPkt ih =>
      rw [clearAcked]
      split_ifs
      · rw [ih, widen_buffers, TcpStream.buffers, TcpStream.buffers]
      · rfl

theorem acknowledge_buffers (s : TcpStream) : (acknowledge s).buffers = s.buffers := by
  have hclear := clearAcked_buffers s.outPkt s
  rw [← hclear]
  unfold acknowledge TcpStream.buffers
  dsimp only
  split_ifs <;> rfl

theorem retrans_sound (hsound : s.Sound) (timers : Timers) : (retrans timers s).Sound := by
  unfold retrans
  split_ifs
  · exact hsound
  · split
    · exact hsound.of_fields rfl rfl rfl rfl rfl
    · dsimp only
      split_ifs <;> first | exact cleanup_sound _ | exact hsound.of_fields rfl rfl rfl rfl rfl

theorem sendSegments_sound (inQueue : List (List UInt8)) :
    ∀ (maxsend : UInt32) (s : TcpStream), s.inQueue = inQueue → s.Sound →
      (sendSegments inQueue maxsend s).2.2.Sound := by
  induction inQueue with
  | nil => exact fun _ _ _ hsound => hsound
  | cons db inQueue ih =>
      intro maxsend s hqueue hsound
      rw [sendSegments]
      split_ifs
      · have htaken : TcpStream.Sound { s with inQueue } := ⟨hsound.1,
          fun db' hdb' => hsound.inQueue db' (hqueue ▸ List.mem_cons_of_mem _ hdb'), hsound.3,
          hsound.4, hsound.5⟩
        have hsent := toSend_buffers { data := db } true { s with inQueue }
        refine ih _ _ ?_ (htaken.congr hsent)
        exact congrArg (fun b => b.2.1) hsent
      · exact hsound

theorem sendPartial_sound (hsound : s.Sound) (sent : Nat) (maxsend : UInt32) :
    (sendPartial sent maxsend s).2.Sound := by
  unfold sendPartial
  split
  · refine TcpStream.Sound.congr ?_ (toSend_buffers _ _ _)
    exact ⟨maxSeg_pos, hsound.2, hsound.3, hsound.4, hsound.5⟩
  · exact hsound

theorem sendData_sound (hsound : s.Sound) : (sendData s).2.Sound :=
  sendPartial_sound (sendSegments_sound s.inQueue (maxSend s) s rfl hsound) _ _

theorem sendControl_buffers (timers : Timers) (s : TcpStream) :
    (sendControl timers s).buffers = s.buffers := by
  have hfin := toSend_buffers (TcpPacket.setFin {}) false s
  unfold sendControl
  dsimp only
  split_ifs
  · exact hfin
  · exact hfin
  · exact toSend_buffers _ _ _
  · rfl

theorem tick_sound (hsound : s.Sound) (timers : Timers) : (tick timers s).Sound := by
  have hcheck : (recvCheck timers s).Sound := by
    unfold recvCheck
    split_ifs
    · exact cleanup_sound s
    · exact hsound
  have hretrans := retrans_sound (hcheck.congr (acknowledge_buffers _)) timers
  have hdata := sendData_sound hretrans
  unfold tick send
  dsimp only
  split_ifs
  · exact hretrans
  · exact hdata
  · exact hdata.congr (sendControl_buffers _ _)

/-! ### Receiving -/

theorem pushData_sound (hsound : s.Sound) (data : List UInt8) : (pushData data s).Sound := by
  have hnet := hsound.outDataNet
  unfold pushData
  split_ifs with hshort
  · refine ⟨hsound.1, hsound.2, hsound.3, hsound.4, ?_⟩
    rw [List.length_append]
    exact hshort
  · have hmod := Nat.mod_lt (data.length - (maxSeg - s.outDataNet.length)) maxSeg_pos
    refine ⟨hsound.1, hsound.2, hsound.3, ?_, ?_⟩
    · intro db hdb
      rcases List.mem_append.mp hdb with hdb | hdb
      · exact hsound.outQueue db hdb
      · rcases List.mem_cons.mp hdb with rfl | hdb
        · rw [List.length_append, List.length_take]
          omega
        · obtain ⟨hcount, rfl⟩ := List.mem_replicate.mp hdb
          have hlong : maxSeg ≤ data.length - (maxSeg - s.outDataNet.length) :=
            Nat.le_of_not_lt fun hlt => hcount (Nat.div_eq_of_lt hlt)
          rw [List.length_take, List.length_drop]
          omega
    · rw [List.length_drop]
      omega

theorem handleFin_sound (hsound : s.Sound) : (handleFin s).Sound := by
  have hsent : (sendAck s).Sound := hsound.congr (toSend_buffers _ _ _)
  have hack : TcpStream.Sound { sendAck s with inStreamActive := false } :=
    hsent.of_fields rfl rfl rfl rfl rfl
  unfold handleFin
  dsimp only
  split <;> first | exact cleanup_sound _ | exact hack.of_fields rfl rfl rfl rfl rfl

theorem handleFinAck_sound (hsound : s.Sound) : (handleFinAck s).Sound := by
  unfold handleFinAck
  split <;> first | exact cleanup_sound _ | exact hsound.of_fields rfl rfl rfl rfl rfl

theorem updateInWinSize_sound (hsound : s.Sound) : (updateInWinSize s).Sound := by
  obtain ⟨size, hframe⟩ := updateInWinSize_frame s
  rw [hframe]
  exact hsound.of_fields rfl rfl rfl rfl rfl

theorem noteAck_sound (hsound : s.Sound) (pkt : TcpPacket) : (noteAck pkt s).Sound := by
  unfold noteAck
  split_ifs
  · exact hsound.of_fields rfl rfl rfl rfl rfl
  · exact hsound

theorem sound_ite {p : Prop} [Decidable p] {u : TcpStream} (ht : t.Sound) (hu : u.Sound) :
    (if p then t else u).Sound := by
  split_ifs
  · exact ht
  · exact hu

theorem acceptPacket_sound (hsound : s.Sound) (pkt : TcpPacket) : (acceptPacket pkt s).Sound := by
  have hnext : TcpStream.Sound { s with inAckno := pkt.seqno + pkt.datasize } :=
    hsound.of_fields rfl rfl rfl rfl rfl
  have hack := noteAck_sound hnext pkt
  have hpush := updateInWinSize_sound (pushData_sound hack pkt.data)
  have hfin := sound_ite (p := pkt.hasFin) (handleFin_sound hpush) hpush
  exact sound_ite (handleFinAck_sound hfin) hfin

/-- Packets are accepted in sound states, and leave one. -/
theorem checkInPktsFrom_sound (fuel : Nat) (s : TcpStream) (hsound : s.Sound) :
    (∀ accepted ∈ (checkInPktsFrom fuel s).1, accepted.1.Sound) ∧
      (checkInPktsFrom fuel s).2.Sound := by
  induction fuel generalizing s with
  | zero => exact ⟨List.forall_mem_nil _, hsound⟩
  | succ fuel ih =>
      rw [checkInPktsFrom]
      split
      · exact ⟨List.forall_mem_nil _, hsound.of_fields rfl rfl rfl rfl rfl⟩
      · next pkt inPkt _ =>
        have htaken : TcpStream.Sound { s with inPkt } := hsound.of_fields rfl rfl rfl rfl rfl
        obtain ⟨haccepted, hafter⟩ := ih _ (acceptPacket_sound htaken pkt)
        exact ⟨List.forall_mem_cons.mpr ⟨htaken, haccepted⟩, hafter⟩

theorem sendAck_sound (hsound : s.Sound) : (sendAck s).Sound := hsound.congr (toSend_buffers _ _ _)

theorem noteWindow_sound (hsound : s.Sound) (pkt : TcpPacket) : (noteWindow pkt s).Sound := by
  unfold noteWindow
  split
  · exact hsound.of_fields rfl rfl rfl rfl rfl
  · exact sendAck_sound hsound

theorem incomingEstablished_sound (hsound : s.Sound) (pkt : TcpPacket) :
    (incomingEstablished pkt s).Sound := by
  unfold incomingEstablished checkInPkts
  refine (checkInPktsFrom_sound _ _ ?_).2
  exact (noteWindow_sound hsound pkt).of_fields rfl rfl rfl rfl rfl

theorem incomingClosed_sound (hsound : s.Sound) (seqno : UInt32) (pkt : TcpPacket) :
    (incomingClosed seqno pkt s).Sound := by
  unfold incomingClosed
  split_ifs
  · dsimp only
    split_ifs
    · refine TcpStream.Sound.of_fields (s := toSend _ true (startConnection seqno _)) ?_
        rfl rfl rfl rfl rfl
      exact TcpStream.Sound.congr (hsound.of_fields rfl rfl rfl rfl rfl) (toSend_buffers _ _ _)
    · refine TcpStream.Sound.of_fields (s := toSend _ true _) ?_ rfl rfl rfl rfl rfl
      exact TcpStream.Sound.congr (hsound.of_fields rfl rfl rfl rfl rfl) (toSend_buffers _ _ _)
  · exact hsound

theorem incomingSynSent_sound (hsound : s.Sound) (seqno : UInt32) (pkt : TcpPacket) :
    (incomingSynSent seqno pkt s).Sound := by
  unfold incomingSynSent
  split_ifs
  · exact hsound
  · dsimp only
    refine TcpStream.Sound.of_fields (s := sendAck _) (sendAck_sound ?_) rfl rfl rfl rfl rfl
    exact hsound.of_fields rfl rfl rfl rfl rfl
  · exact incomingClosed_sound hsound seqno pkt

theorem incomingSynRcvd_sound (hsound : s.Sound) (pkt : TcpPacket) :
    (incomingSynRcvd pkt s).Sound := by
  unfold incomingSynRcvd
  dsimp only
  split_ifs
  · exact hsound.of_fields rfl rfl rfl rfl rfl
  · exact hsound
  · refine incomingEstablished_sound ?_ pkt
    exact hsound.of_fields rfl rfl rfl rfl rfl
  · exact hsound.of_fields rfl rfl rfl rfl rfl
  · exact hsound

theorem recvPkt_sound (hsound : s.Sound) (seqno : UInt32) (buf : List UInt8) :
    (recvPkt seqno buf s).Sound := by
  unfold recvPkt
  split
  · unfold handleIncoming
    split <;> first
      | exact incomingClosed_sound hsound _ _
      | exact incomingSynSent_sound hsound _ _
      | exact incomingSynRcvd_sound hsound _
      | exact incomingEstablished_sound hsound _
      | exact hsound.of_fields rfl rfl rfl rfl rfl
  · exact hsound

/-! ### Runs -/

theorem connect_sound (hsound : s.Sound) (seqno : UInt32) : (connect seqno s).2.Sound := by
  unfold connect
  dsimp only
  split
  · exact hsound.of_fields rfl rfl rfl rfl rfl
  · split
    · exact hsound.of_fields rfl rfl rfl rfl rfl
    · refine TcpStream.Sound.of_fields (s := toSend _ true _) ?_ rfl rfl rfl rfl rfl
      refine TcpStream.Sound.congr ?_ (toSend_buffers _ _ _)
      exact hsound.of_fields rfl rfl rfl rfl rfl

theorem listenfor_sound (hsound : s.Sound) : (listenfor s).2.Sound := by
  unfold listenfor
  dsimp only
  split
  · exact hsound.of_fields rfl rfl rfl rfl rfl
  · split <;> exact hsound.of_fields rfl rfl rfl rfl rfl

theorem closeWrite_sound (hsound : s.Sound) : (closeWrite s).2.Sound := by
  unfold closeWrite
  dsimp only
  split <;> exact hsound.of_fields rfl rfl rfl rfl rfl

/-- A read leaves sound buffers, whatever it returns. -/
theorem read_sound (hsound : s.Sound) {size : Int32} (hsize : 0 ≤ size.toInt) :
    (read size s).2.2.Sound := by
  by_cases hready : s.Open ∧ intReadPending s ≠ 0
  · obtain ⟨hopen, hsome⟩ := hready
    rw [read_eq hopen hsome]
    split
    · refine updateInWinSize_sound ⟨hsound.1, hsound.2, ?_, hsound.4, hsound.5⟩
      rw [List.length_drop]
      exact lt_of_le_of_lt (Nat.sub_le _ _) hsound.outDataRead
    · next hwhole =>
      refine updateInWinSize_sound (readQueue_spec s.outQueue { s with outDataRead := [] } _ rfl rfl
        ⟨hsound.1, hsound.2, maxSeg_pos, hsound.4, hsound.5⟩ (remSize_le hsound hsize)).1
  · unfold read
    dsimp only
    split
    · exact hsound.of_fields rfl rfl rfl rfl rfl
    · next hclosed =>
      split
      · exact hsound.of_fields rfl rfl rfl rfl rfl
      · next hbefore =>
        split
        · exact hsound
        · split
          · exact hsound.of_fields rfl rfl rfl rfl rfl
          · next hsome =>
            exact absurd ⟨⟨hclosed, Bool.eq_false_iff.mpr hbefore⟩, hsome⟩ hready

/-- A user asks for no negative number of bytes. -/
def ReadsForward (_ : TcpStream) : Op → Prop
  | .read size => 0 ≤ size.toInt
  | _ => True

theorem step_sound (hsound : s.Sound) {op : Op} (hforward : ReadsForward s op)
    (hstep : step s op = some t) : t.Sound := by
  cases op with
  | connect seqno =>
      cases hstep
      exact connect_sound hsound seqno
  | listenfor =>
      cases hstep
      exact listenfor_sound hsound
  | write dta =>
      cases hstep
      exact (write_behind hsound dta).1
  | read size =>
      cases hstep
      exact read_sound hsound hforward
  | closeWrite =>
      cases hstep
      exact closeWrite_sound hsound
  | close =>
      cases hstep
      exact cleanup_sound s
  | recvPkt seqno buf =>
      cases hstep
      exact recvPkt_sound hsound seqno buf
  | tick timers =>
      cases hstep
      exact tick_sound hsound timers

/-- In every run whole segments stay whole, and the buffers around them short of one. -/
theorem reachable_sound (s : TcpStream) (hreach : Reaches step ReadsForward {} s) : s.Sound :=
  hreach.invariant TcpStream.Sound
    (fun _ _ _ hsound hforward hstep => step_sound hsound hforward hstep) (sound_of_empty rfl)

end RetroShare.Tcp
