import RetroShare.Tcp.Proof.SoundRuns

/-!
# Delivery in order

A packet that is next fills the segment that was begun, then whole segments, and leaves the rest in
`outDataNet`. The loop over the whole segments copies from one place, so what it stores are copies of
the first of them.
-/

namespace RetroShare.Tcp

open Segments

variable {s : TcpStream}

/-! ### One packet -/

/-- The room in the segment that was begun. -/
def remSpace (s : TcpStream) : Nat := maxSeg - s.outDataNet.length

/-- How many whole segments a packet fills behind the one that was begun. -/
def furtherCount (data : List UInt8) (s : TcpStream) : Nat :=
  (s.outDataNet.length + data.length) / maxSeg - 1

/-- The whole segments of a packet behind the bytes that complete the segment that was begun. -/
def furtherSegments (data : List UInt8) (s : TcpStream) : List (List UInt8) :=
  segments maxSeg (furtherCount data s) (data.drop (remSpace s))

/-- All of these segments are the first one. -/
def SegmentsRepeat (data : List UInt8) (s : TcpStream) : Prop :=
  ∀ segment ∈ furtherSegments data s, segment = (data.drop (remSpace s)).take maxSeg

/-- The data comes behind the bytes that wait to be read, and no whole segment is left out of the
queue. -/
def Appends (data : List UInt8) (s : TcpStream) : Prop :=
  (pushData data s).readable = s.readable ++ data ∧ (pushData data s).outDataNet.length < maxSeg

theorem segmentsRepeat_of_lt {data : List UInt8}
    (hshort : s.outDataNet.length + data.length < 3 * maxSeg) : SegmentsRepeat data s := by
  have hcount : furtherCount data s = 0 ∨ furtherCount data s = 1 := by
    have hlt := Nat.div_lt_of_lt_mul (m := s.outDataNet.length + data.length) (n := maxSeg) (k := 3)
      (by omega)
    unfold furtherCount
    omega
  unfold SegmentsRepeat furtherSegments
  rcases hcount with hcount | hcount
  · rw [hcount]
    exact nofun
  · rw [hcount]
    exact fun segment hsegment => List.mem_singleton.mp hsegment

theorem length_remData {data : List UInt8} (hnet : s.outDataNet.length < maxSeg) :
    data.length - remSpace s = s.outDataNet.length + data.length - maxSeg := by
  unfold remSpace
  omega

theorem furtherCount_eq {data : List UInt8} (hnet : s.outDataNet.length < maxSeg)
    (hlong : ¬ s.outDataNet.length + data.length < maxSeg) :
    (data.length - remSpace s) / maxSeg = furtherCount data s := by
  rw [length_remData hnet, furtherCount,
    Nat.div_eq_sub_div maxSeg_pos (Nat.le_of_not_lt hlong), Nat.add_sub_cancel]

/-- The whole segments are in the packet. -/
theorem furtherCount_le {data : List UInt8} (hnet : s.outDataNet.length < maxSeg)
    (hlong : ¬ s.outDataNet.length + data.length < maxSeg) :
    maxSeg * furtherCount data s ≤ (data.drop (remSpace s)).length := by
  rw [List.length_drop, ← furtherCount_eq hnet hlong]
  exact Nat.mul_div_le _ _

/-- What `pushData` stores when the segment that was begun is completed. -/
theorem readable_pushData {data : List UInt8} (hnet : s.outDataNet.length < maxSeg)
    (hlong : ¬ s.outDataNet.length + data.length < maxSeg) :
    (pushData data s).readable =
      s.readable ++ data.take (remSpace s) ++
        ((List.replicate (furtherCount data s) ((data.drop (remSpace s)).take maxSeg)).flatten ++
          (data.drop (remSpace s)).drop (maxSeg * furtherCount data s)) := by
  have hsplit := Nat.div_add_mod (data.length - remSpace s) maxSeg
  have htail : data.length - (data.length - remSpace s) % maxSeg =
      remSpace s + maxSeg * ((data.length - remSpace s) / maxSeg) := by
    have hspace : remSpace s ≤ data.length := by
      unfold remSpace
      omega
    omega
  have hpush : pushData data s = { s with
      outQueue := s.outQueue ++ (s.outDataNet ++ data.take (remSpace s)) ::
        List.replicate ((data.length - remSpace s) / maxSeg) ((data.drop (remSpace s)).take maxSeg)
      outDataNet := data.drop (data.length - (data.length - remSpace s) % maxSeg) } :=
    if_neg hlong
  rw [hpush, htail, furtherCount_eq hnet hlong]
  simp only [TcpStream.readable, List.flatten_append, List.flatten_cons, List.append_assoc,
    List.drop_drop]

theorem length_outDataNet_pushData {data : List UInt8}
    (hlong : ¬ s.outDataNet.length + data.length < maxSeg) :
    (pushData data s).outDataNet.length < maxSeg := by
  have hmod := Nat.mod_lt (data.length - (maxSeg - s.outDataNet.length)) maxSeg_pos
  unfold pushData
  rw [if_neg hlong, List.length_drop]
  omega

/-- The data of a packet is appended exactly when its further whole segments are copies of the first
of them. -/
theorem appends_iff (hnet : s.outDataNet.length < maxSeg) (data : List UInt8) :
    Appends data s ↔ SegmentsRepeat data s := by
  by_cases hshort : s.outDataNet.length + data.length < maxSeg
  · refine iff_of_true ⟨?_, ?_⟩ (segmentsRepeat_of_lt (by omega))
    · rw [pushData, if_pos hshort]
      simp [TcpStream.readable]
    · rw [pushData, if_pos hshort, List.length_append]
      exact hshort
  · have hdata : s.readable ++ data = s.readable ++ data.take (remSpace s) ++
        ((data.drop (remSpace s)).take (maxSeg * furtherCount data s) ++
          (data.drop (remSpace s)).drop (maxSeg * furtherCount data s)) := by
      rw [List.take_append_drop, List.append_assoc, List.take_append_drop]
    rw [Appends, and_iff_left (length_outDataNet_pushData hshort), readable_pushData hnet hshort,
      hdata, List.append_right_inj, List.append_left_inj]
    rcases Nat.eq_zero_or_pos (furtherCount data s) with hzero | hpos
    · refine iff_of_true ?_ ?_
      · rw [hzero]
        simp
      · rw [SegmentsRepeat, furtherSegments, hzero]
        intro segment hsegment
        cases hsegment
    · refine flatten_replicate_iff (furtherCount_le hnet hshort) ?_
      have hle := Nat.le_mul_of_pos_right maxSeg hpos
      have hlong := furtherCount_le hnet hshort
      rw [List.length_take]
      omega

/-! ### The loop -/

theorem readable_congr {t : TcpStream} (hsame : t.buffers = s.buffers) : t.readable = s.readable := by
  simp only [TcpStream.buffers, Prod.mk.injEq] at hsame
  obtain ⟨_, _, hread, hqueue, hnet⟩ := hsame
  rw [TcpStream.readable, hread, hqueue, hnet]
  rfl

theorem readable_pushData_congr {t : TcpStream} (hsame : t.buffers = s.buffers) (data : List UInt8) :
    (pushData data t).readable = (pushData data s).readable := by
  simp only [TcpStream.buffers, Prod.mk.injEq] at hsame
  obtain ⟨_, _, hread, hqueue, hnet⟩ := hsame
  unfold pushData
  rw [hnet]
  split
  · simp only [TcpStream.readable, hread, hqueue]
  · simp only [TcpStream.readable, hread, hqueue]

/-- The bytes that wait to be read have not changed, or the connection has been closed. -/
structure KeepsReadable (s t : TcpStream) : Prop where
  readable : t.readable = s.readable ∨ t.state = .closed
  closed : s.state = .closed → t.state = .closed

theorem KeepsReadable.refl (s : TcpStream) : KeepsReadable s s := ⟨.inl rfl, id⟩

theorem KeepsReadable.trans {t u : TcpStream} (hst : KeepsReadable s t) (htu : KeepsReadable t u) :
    KeepsReadable s u := by
  refine ⟨?_, fun hclosed => htu.closed (hst.closed hclosed)⟩
  rcases hst.readable with hsame | hclosed
  · rw [← hsame]
    exact htu.readable
  · exact .inr (htu.closed hclosed)

theorem KeepsReadable.ite {t u : TcpStream} {p : Prop} [Decidable p] (ht : KeepsReadable s t)
    (hu : KeepsReadable s u) : KeepsReadable s (if p then t else u) := by
  split
  · exact ht
  · exact hu

theorem state_toSend (pkt : TcpPacket) (retrans : Bool) (s : TcpStream) :
    (toSend pkt retrans s).state = s.state := by
  unfold toSend
  split
  · rfl
  · dsimp only
    split <;> rfl

theorem handleFin_keeps (s : TcpStream) : KeepsReadable s (handleFin s) := by
  have hsent : (sendAck s).readable = s.readable := readable_congr (toSend_buffers _ _ _)
  have hstate : (sendAck s).state = s.state := state_toSend _ _ _
  unfold handleFin
  dsimp only
  split
  · next hopen => exact ⟨.inl hsent, fun hclosed => by simp [hstate, hclosed] at hopen⟩
  · next hopen => exact ⟨.inl hsent, fun hclosed => by simp [hstate, hclosed] at hopen⟩
  · exact ⟨.inr rfl, fun _ => rfl⟩
  · exact ⟨.inl hsent, fun hclosed => hstate.trans hclosed⟩

theorem handleFinAck_keeps (s : TcpStream) : KeepsReadable s (handleFinAck s) := by
  unfold handleFinAck
  split
  · next hopen => exact ⟨.inl rfl, fun hclosed => by simp [hclosed] at hopen⟩
  · exact ⟨.inr rfl, fun _ => rfl⟩
  · exact ⟨.inr rfl, fun _ => rfl⟩
  · exact ⟨.inl rfl, id⟩

theorem noteAck_buffers (pkt : TcpPacket) (s : TcpStream) (ackno : UInt32) :
    (noteAck pkt { s with inAckno := ackno }).buffers = s.buffers ∧
      (noteAck pkt { s with inAckno := ackno }).state = s.state := by
  unfold noteAck TcpStream.buffers
  split_ifs <;> exact ⟨rfl, rfl⟩

theorem state_pushData (data : List UInt8) (s : TcpStream) : (pushData data s).state = s.state := by
  unfold pushData
  split <;> rfl

/-- Accepting a packet stores its data, and what follows takes no byte away from an open stream. -/
theorem acceptPacket_keeps (pkt : TcpPacket) (s : TcpStream) :
    KeepsReadable (pushData pkt.data s) (acceptPacket pkt s) := by
  obtain ⟨hbuffers, hstate⟩ := noteAck_buffers pkt s (pkt.seqno + pkt.datasize)
  obtain ⟨size, hframe⟩ := updateInWinSize_frame
    (pushData pkt.data (noteAck pkt { s with inAckno := pkt.seqno + pkt.datasize }))
  have hstored : KeepsReadable (pushData pkt.data s) (updateInWinSize
      (pushData pkt.data (noteAck pkt { s with inAckno := pkt.seqno + pkt.datasize }))) := by
    rw [hframe]
    refine ⟨.inl (readable_pushData_congr hbuffers pkt.data), fun hclosed => ?_⟩
    rw [state_pushData] at hclosed
    exact (state_pushData _ _).trans (hstate.trans hclosed)
  have hfin := KeepsReadable.ite (p := pkt.hasFin) (hstored.trans (handleFin_keeps _)) hstored
  exact KeepsReadable.ite (hfin.trans (handleFinAck_keeps _)) hfin

/-- While the stream stays open, the data of the packets that are accepted comes behind the bytes that
wait to be read, packet after packet. -/
theorem checkInPktsFrom_delivers (fuel : Nat) (s : TcpStream)
    (happends : ∀ accepted ∈ (checkInPktsFrom fuel s).1, Appends accepted.2.data accepted.1) :
    ((checkInPktsFrom fuel s).2.readable =
        s.readable ++ ((checkInPktsFrom fuel s).1.map (·.2.data)).flatten ∨
      (checkInPktsFrom fuel s).2.state = .closed) ∧
    (s.state = .closed → (checkInPktsFrom fuel s).2.state = .closed) := by
  induction fuel generalizing s with
  | zero => exact ⟨.inl (List.append_nil _).symm, id⟩
  | succ fuel ih =>
      revert happends
      rw [checkInPktsFrom]
      split
      · exact fun _ => ⟨.inl (List.append_nil _).symm, id⟩
      · next pkt inPkt _ =>
        dsimp only
        intro happends
        obtain ⟨hfirst, hothers⟩ := List.forall_mem_cons.mp happends
        obtain ⟨hafter, hclosed⟩ := ih (acceptPacket pkt { s with inPkt }) hothers
        have hkeeps := acceptPacket_keeps pkt { s with inPkt }
        refine ⟨?_, fun hstate => hclosed (hkeeps.closed ((state_pushData _ _).trans hstate))⟩
        rcases hkeeps.readable with hsame | hlost
        · rw [hsame, hfirst.1] at hafter
          rw [List.map_cons, List.flatten_cons, ← List.append_assoc]
          exact hafter
        · exact .inr (hclosed hlost)

/-- A packet is taken from `inPkt` only when it is the next. -/
theorem findNext_seqno {inAckno : UInt32} {inPkt rest : List TcpPacket} {pkt : TcpPacket}
    (hfound : findNext inAckno inPkt = (some pkt, rest)) : pkt.seqno = inAckno := by
  induction inPkt generalizing rest with
  | nil => cases hfound
  | cons first inPkt ih =>
      rw [findNext] at hfound
      split at hfound
      · next hnext =>
        cases hfound
        exact hnext
      · dsimp only at hfound
        split at hfound
        · exact ih hfound
        · obtain ⟨hfirst, _⟩ := Prod.mk.inj hfound
          have htail : findNext inAckno inPkt = (some pkt, (findNext inAckno inPkt).2) :=
            Prod.ext hfirst rfl
          exact ih htail

theorem checkInPktsFrom_seqno (fuel : Nat) (s : TcpStream) :
    ∀ accepted ∈ (checkInPktsFrom fuel s).1, accepted.2.seqno = accepted.1.inAckno := by
  induction fuel generalizing s with
  | zero => exact List.forall_mem_nil _
  | succ fuel ih =>
      rw [checkInPktsFrom]
      split
      · exact List.forall_mem_nil _
      · next hfound => exact List.forall_mem_cons.mpr ⟨findNext_seqno hfound, ih _⟩

/-- A stream to which a packet has come that is next. -/
def receiving (data : List UInt8) : TcpStream where
  inPkt := [{ data }]
  state := .established

theorem receiving_sound (data : List UInt8) : (receiving data).Sound :=
  ⟨maxSeg_pos, List.forall_mem_nil _, maxSeg_pos, List.forall_mem_nil _, maxSeg_pos⟩

theorem mem_checkInPkts_receiving (data : List UInt8) :
    ({ receiving data with inPkt := [] }, { data }) ∈ (checkInPkts (receiving data)).1 :=
  List.mem_cons_self ..

/-- Two segments of one byte and a third one of another. -/
def mixedData (size : Nat) : List UInt8 :=
  List.replicate (2 * size) 0 ++ List.replicate size 1

theorem length_mixedData (size : Nat) : (mixedData size).length = 3 * size := by
  rw [mixedData, List.length_append, List.length_replicate, List.length_replicate]
  omega

theorem not_segmentsRepeat_mixedData (hnet : s.outDataNet = []) :
    ¬ SegmentsRepeat (mixedData maxSeg) s := by
  have hspace : remSpace s = maxSeg := by rw [remSpace, hnet, List.length_nil, Nat.sub_zero]
  have hcount : furtherCount (mixedData maxSeg) s = 2 := by
    rw [furtherCount, hnet, length_mixedData]
    decide
  have hfirst : (mixedData maxSeg).drop maxSeg =
      List.replicate maxSeg 0 ++ List.replicate maxSeg 1 := by
    rw [mixedData, two_mul, List.replicate_add, List.append_assoc]
    exact List.drop_left' List.length_replicate
  have hsecond : List.replicate maxSeg 1 ∈ furtherSegments (mixedData maxSeg) s := by
    rw [furtherSegments, hcount, hspace, hfirst, segments, segments,
      List.drop_left' List.length_replicate, List.take_of_length_le List.length_replicate.le]
    exact List.mem_cons_of_mem _ (List.mem_cons_self ..)
  intro hrepeat
  have hequal := hrepeat _ hsecond
  rw [hspace, hfirst, List.take_left' List.length_replicate, List.replicate_inj] at hequal
  exact absurd hequal.2 (by decide)

end RetroShare.Tcp
