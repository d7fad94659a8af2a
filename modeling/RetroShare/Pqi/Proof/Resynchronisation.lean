import RetroShare.Pqi.Proof.PacketLengths

/-!
# A reader and its connections

The flag that says the reader stands behind a header and the buffer that holds the header are cleared
in different places. A run in which no buffer is freed and no connection is made while the reader
stands behind a header keeps the two together, and every packet that is resumed is the one that was
begun on the same connection.
-/

namespace RetroShare.PqiStreamer

open Bytes Transition

variable {Conn Item : Type} {bio : BinInterface Conn} {deserialise : Deserialise Item}

/-- The last header that was read. -/
def lastFresh (visits : List Visit) : Option Visit :=
  visits.foldl (fun last v => if v.fresh then some v else last) none

theorem lastFresh_append (visits : List Visit) (v : Visit) :
    lastFresh (visits ++ [v]) = if v.fresh then some v else lastFresh visits := by
  rw [lastFresh, List.foldl_append]
  rfl

/-- Every arrival has read its header, or comes back to the last one read, on the same connection. -/
inductive Grounded : List Visit → Prop
  | nil : Grounded []
  | fresh {visits : List Visit} {v : Visit} (hgrounded : Grounded visits) (hfresh : v.fresh = true) :
      Grounded (visits ++ [v])
  | resumed {visits : List Visit} {v begun : Visit} (hgrounded : Grounded visits)
      (hbegun : lastFresh visits = some begun) (hconnection : begun.connection = v.connection)
      (hheader : begun.header = v.header) : Grounded (visits ++ [v])

/-- The buffer holds the last header that was read, and it came from the present connection. -/
def HoldsHeader (bio : BinInterface Conn) (s : Streamer Conn Item) : Prop :=
  ∃ block begun, s.mPktRpending = some block ∧ lastFresh s.visits = some begun ∧
    begun.connection = bio.connection s.mBio ∧ begun.header = headerOf block

structure Synchronised (bio : BinInterface Conn) (s : Streamer Conn Item) : Prop where
  grounded : Grounded s.visits
  holds : s.mReadingState = .packetStarted → HoldsHeader bio s

/-- Nothing is freed and no connection is made behind a header. -/
def Orderly (bio : BinInterface Conn) (s : Streamer Conn Item) : Op Conn → Prop
  | .receive _ _ _ => True
  | .freeWhenInactive => bio.isactive s.mBio = true ∨ s.mReadingState = .initial
  | .reset => s.mReadingState = .initial
  | .change conn => bio.connection conn = bio.connection s.mBio ∨ s.mReadingState = .initial

variable {s t : Streamer Conn Item}

theorem Synchronised.of_initial (hgrounded : Grounded s.visits) (hinitial : s.mReadingState = .initial) :
    Synchronised bio s := by
  refine ⟨hgrounded, ?_⟩
  intro hstarted
  rw [hinitial] at hstarted
  cases hstarted

/-! ### One packet -/

theorem createPacket_initial (s : Streamer Conn Item) :
    (createPacket deserialise s).mReadingState = .initial := by
  obtain ⟨partials, incoming, hframe⟩ := @createPacket_frame _ _ deserialise s
  rw [hframe]
  rfl

/-- A packet that has been read leaves the reader at the start. -/
theorem continuePacket_initial {fresh : Bool} {readbytes readbytes' : Int32}
    (hnext : (continuePacket bio deserialise s fresh readbytes).1 = .next readbytes') :
    (continuePacket bio deserialise s fresh readbytes).2.mReadingState = .initial := by
  revert hnext
  unfold continuePacket
  dsimp only
  split_ifs
  all_goals
    intro hnext
    first
    | exact hnext.elim
    | exact createPacket_initial _

theorem startPacketRead_initial {readbytes readbytes' : Int32}
    (hnext : (startPacketRead bio deserialise s readbytes).1 = .next readbytes') :
    (startPacketRead bio deserialise s readbytes).2.mReadingState = .initial := by
  revert hnext
  unfold startPacketRead
  dsimp only
  split
  · exact nofun
  · exact continuePacket_initial

theorem Passes.synchronised_fresh (hkeeps : bio.KeepsConnection) (hpasses : Passes bio true s t)
    (hgrounded : Grounded s.visits) : Synchronised bio t := by
  obtain ⟨rejected, length, _, hvisits⟩ := hpasses.visits
  obtain ⟨block, hblock, hheader⟩ := hpasses.header
  refine ⟨?_, ?_⟩
  · rw [hvisits]
    exact hgrounded.fresh rfl
  · intro _
    refine ⟨block, ⟨bio.connection s.mBio, headerOf s.block, true, rejected, length⟩, hblock, ?_,
      (hpasses.connection hkeeps).symm, hheader.symm⟩
    rw [hvisits, lastFresh_append]
    rfl

theorem Passes.synchronised_resumed (hkeeps : bio.KeepsConnection) (hpasses : Passes bio false s t)
    (hgrounded : Grounded s.visits) (hholds : HoldsHeader bio s) : Synchronised bio t := by
  obtain ⟨rejected, length, _, hvisits⟩ := hpasses.visits
  obtain ⟨block, hblock, hheader⟩ := hpasses.header
  obtain ⟨block', begun, hblock', hbegun, hconnection, hheader'⟩ := hholds
  have hsame : begun.header = headerOf s.block := by
    rw [hheader', Streamer.block, hblock']
    rfl
  refine ⟨?_, ?_⟩
  · rw [hvisits]
    exact hgrounded.resumed hbegun hconnection hsame
  · intro _
    refine ⟨block, begun, hblock, ?_, hconnection.trans (hpasses.connection hkeeps).symm,
      hsame.trans hheader.symm⟩
    rw [hvisits, lastFresh_append]
    exact hbegun

theorem startPacketRead_synchronised (hkeeps : bio.KeepsConnection) (hgrounded : Grounded s.visits)
    (hinitial : s.mReadingState = .initial) (readbytes : Int32) :
    Synchronised bio (startPacketRead bio deserialise s readbytes).2 := by
  rcases @startPacketRead_cases _ _ bio deserialise s readbytes with
    ⟨status, block, hdone⟩ | ⟨block, accepts, hpasses⟩
  · rw [hdone]
    exact .of_initial hgrounded hinitial
  · exact hpasses.synchronised_fresh hkeeps hgrounded

/-! ### Runs -/

/-- Between two packets the reader is synchronised, and at the start if it goes on. -/
def Between (bio : BinInterface Conn) : Flow → Streamer Conn Item → Prop
  | .done _, s => Synchronised bio s
  | .next _, s => Grounded s.visits ∧ s.mReadingState = .initial

theorem between_of {flow : Flow} (hsynchronised : Synchronised bio s)
    (hinitial : ∀ readbytes, flow = .next readbytes → s.mReadingState = .initial) :
    Between bio flow s := by
  cases flow with
  | done status => exact hsynchronised
  | next readbytes => exact ⟨hsynchronised.grounded, hinitial readbytes rfl⟩

theorem Between.synchronised {flow : Flow} (hbetween : Between bio flow s) : Synchronised bio s := by
  cases flow with
  | done status => exact hbetween
  | next readbytes => exact .of_initial hbetween.1 hbetween.2

theorem handleincomingLocked_synchronised (hkeeps : bio.KeepsConnection)
    (hsynchronised : Synchronised bio s) (maxin : Int32) (fuel : Nat) :
    Synchronised bio (handleincomingLocked bio deserialise maxin fuel s).2 := by
  have hloop : ∀ flow t, Between bio flow t →
      Synchronised bio (nextPackets bio deserialise maxin fuel flow t).2 := by
    intro flow t ht
    obtain ⟨flow', hkept⟩ := @nextPackets_keeps _ _ bio deserialise maxin
      (Between bio) (fun _ _ hbetween => hbetween)
      (fun readbytes _ hbetween => between_of
        (startPacketRead_synchronised hkeeps hbetween.1 hbetween.2 readbytes)
        fun _ hnext => startPacketRead_initial hnext) fuel flow t ht
    exact hkept.synchronised
  unfold handleincomingLocked
  split_ifs
  · exact .of_initial hsynchronised.grounded rfl
  · apply hloop
    split
    · next hinitial =>
      exact between_of (startPacketRead_synchronised hkeeps hsynchronised.grounded hinitial 0)
        fun _ hnext => startPacketRead_initial hnext
    · next hstarted =>
      obtain ⟨block, begun, hblock, hholds⟩ := hsynchronised.holds hstarted
      have hholds' : HoldsHeader bio (allocateRpendLocked s) :=
        ⟨block, begun, by rw [allocateRpendLocked, Streamer.block, hblock]; rfl, hholds⟩
      exact between_of ((continuePacket_passes rfl false 0).synchronised_resumed hkeeps
        hsynchronised.grounded hholds') fun _ hnext => continuePacket_initial hnext

theorem step_synchronised (hkeeps : bio.KeepsConnection) (hsynchronised : Synchronised bio s)
    {op : Op Conn} (horderly : Orderly bio s op) {after : Streamer Conn Item}
    (hstep : step bio deserialise s op = some after) : Synchronised bio after := by
  cases op with
  | receive timeout maxin fuel =>
      cases hstep
      have hpolled : Synchronised bio { s with mBio := (bio.moretoread s.mBio timeout).2 } := by
        refine ⟨hsynchronised.grounded, ?_⟩
        intro hstarted
        obtain ⟨block, begun, hblock, hbegun, hconnection, hheader⟩ := hsynchronised.holds hstarted
        exact ⟨block, begun, hblock, hbegun, hconnection.trans (hkeeps.moretoread _ _).symm, hheader⟩
      unfold receive
      dsimp only
      split_ifs
      · exact handleincomingLocked_synchronised hkeeps hpolled maxin fuel
      · exact hpolled
  | freeWhenInactive =>
      cases hstep
      unfold freeWhenInactive
      split_ifs with hactive
      · exact hsynchronised
      · exact .of_initial hsynchronised.grounded (horderly.resolve_left hactive)
  | reset =>
      cases hstep
      exact .of_initial hsynchronised.grounded horderly
  | change conn =>
      cases hstep
      rcases horderly with hsame | hinitial
      · refine ⟨hsynchronised.grounded, ?_⟩
        intro hstarted
        obtain ⟨block, begun, hblock, hbegun, hconnection, hheader⟩ := hsynchronised.holds hstarted
        exact ⟨block, begun, hblock, hbegun, hconnection.trans hsame.symm, hheader⟩
      · exact .of_initial hsynchronised.grounded hinitial

theorem queueInterface_keepsConnection : queueInterface.KeepsConnection :=
  ⟨fun _ _ => rfl, fun _ _ => rfl, fun _ => rfl⟩

/-- A header of twelve bytes, and the rest of its packet is still on the way. -/
def waiting : Streamer (List UInt8) Unit :=
  receive queueInterface noItems 0 100 1 (Streamer.new [0x02, 0, 0, 1, 0, 0, 0, 12])

structure Link where
  active : Bool
  queue : List UInt8
  deriving DecidableEq, Repr

def linkInterface : BinInterface Link where
  connection _ := 0
  isactive link := link.active
  moretoread link _ := (!link.queue.isEmpty, link)
  readdata link length :=
    if 0 < length.toInt ∧ length.toInt ≤ link.queue.length then
      ((length, link.queue.take length.toInt.toNat),
        { link with queue := link.queue.drop length.toInt.toNat })
    else ((-1, []), ⟨false, []⟩)
  close _ := ⟨false, []⟩

/-- One tick: the header is read, the connection is lost, and the buffer is freed. -/
def severed : Streamer Link Unit :=
  tickRecv linkInterface noItems 0 100 1 (Streamer.new ⟨true, [0x02, 0, 0, 1, 0, 0, 0, 12]⟩)

end RetroShare.PqiStreamer
