import RetroShare.Pqi.PqiStreamer
import RetroShare.Foundation.Transition

/-!
# Lengths asked of the connection

The size of a packet counts its header, and a size below eight makes the rest of the packet negative.
The test against the buffer adds the header back before it compares, so it sees the small size and
lets the packet through.
-/

namespace RetroShare.PqiStreamer

open Bytes Transition

variable {Conn Item : Type} {bio : BinInterface Conn} {deserialise : Deserialise Item}

/-- The packet was rejected, or the length that was asked for fits behind the header. -/
def Visit.Sane (v : Visit) : Prop :=
  v.rejected = true ∨
    ∀ length, v.length = some length →
      0 ≤ length.toInt ∧ length.toInt ≤ (getRsPktMaxSize.toNat : Int) - getRsPktBaseSize.toNat

/-- A slice, or a packet with a size that its own header fits in. -/
def SizeCoversHeader (header : List UInt8) : Prop :=
  isPartialPacket header = true ∨ getRsPktBaseSize ≤ getRsItemSize header

/-- The visit is what the test against the buffer makes of its header. -/
def Visit.Follows (v : Visit) : Prop :=
  v.rejected = decide (extralen v.header + getRsPktBaseSize > getRsPktMaxSize) ∧
    v.length =
      if extralen v.header + getRsPktBaseSize > getRsPktMaxSize then none
      else if extralen v.header > 0 then some (extralen v.header).toInt32 else none

/-! ### One header -/

theorem toInt_toInt32 (n : UInt32) :
    n.toInt32.toInt = if n.toNat < 2 ^ 31 then (n.toNat : Int) else (n.toNat : Int) - 2 ^ 32 := by
  have hcond := BitVec.toInt_eq_toNat_cond n.toBitVec
  have hint : n.toInt32.toInt = n.toBitVec.toInt := rfl
  have hnat : n.toBitVec.toNat = n.toNat := rfl
  rw [hint, hcond, hnat]
  split <;> split <;> omega

theorem extralen_of_slice {header : List UInt8} (hslice : isPartialPacket header = true) :
    (extralen header).toNat < 2 ^ 16 := by
  have hlt := ofBigEndian_lt ((header.drop 6).take 2)
  have hlen : ((header.drop 6).take 2).length ≤ 2 := List.length_take_le 2 _
  have hpow : 256 ^ ((header.drop 6).take 2).length ≤ 256 ^ 2 := Nat.pow_le_pow_right (by omega) hlen
  rw [extralen, if_pos hslice, UInt32.toNat_ofNat']
  exact lt_of_le_of_lt (Nat.mod_le _ _) (by omega)

/-- With the header added back the size is what it was, however small. -/
theorem extralen_add_of_whole {header : List UInt8} (hslice : ¬ isPartialPacket header = true) :
    extralen header + getRsPktBaseSize = getRsItemSize header := by
  rw [extralen, if_neg hslice]
  exact UInt32.sub_add_cancel _ _

theorem toNat_extralen {header : List UInt8} (hslice : ¬ isPartialPacket header = true) :
    (extralen header).toNat = (2 ^ 32 - 8 + (getRsItemSize header).toNat) % 2 ^ 32 := by
  rw [extralen, if_neg hslice, UInt32.toNat_sub]
  rfl

theorem Visit.Follows.sane_of_slice {v : Visit} (hfollows : v.Follows)
    (hslice : isPartialPacket v.header = true) : v.Sane := by
  right
  intro length hlength
  have hlt := extralen_of_slice hslice
  rw [hfollows.2] at hlength
  split_ifs at hlength with hbig hextra
  cases hlength
  rw [toInt_toInt32, if_pos (by omega)]
  have hmax : (getRsPktMaxSize.toNat : Int) - getRsPktBaseSize.toNat = 262135 := rfl
  omega

/-- The length that a short size turns into is negative, and gets past the test. -/
theorem Visit.Follows.asks_negative {v : Visit} (hfollows : v.Follows)
    (hslice : ¬ isPartialPacket v.header = true)
    (hsmall : (getRsItemSize v.header).toNat < 8) :
    v.rejected = false ∧ ∃ length, v.length = some length ∧ length.toInt < 0 := by
  have hnat := toNat_extralen hslice
  obtain ⟨hrejected, hlength⟩ := hfollows
  rw [extralen_add_of_whole hslice] at hrejected hlength
  have hfits : ¬ getRsItemSize v.header > getRsPktMaxSize := by
    have hmax : getRsPktMaxSize.toNat = 262143 := rfl
    rw [gt_iff_lt, UInt32.lt_iff_toNat_lt, hmax]
    omega
  have hextra : extralen v.header > 0 := by
    rw [gt_iff_lt, UInt32.lt_iff_toNat_lt, hnat]
    show 0 < _
    omega
  rw [if_neg hfits, if_pos hextra] at hlength
  refine ⟨by rw [hrejected, decide_eq_false hfits], _, hlength, ?_⟩
  rw [toInt_toInt32, hnat]
  split_ifs <;> omega

theorem Visit.Follows.sane_of_size {v : Visit} (hfollows : v.Follows)
    (hslice : ¬ isPartialPacket v.header = true)
    (hcovers : 8 ≤ (getRsItemSize v.header).toNat) : v.Sane := by
  have hnat := toNat_extralen hslice
  have hsize := (getRsItemSize v.header).toNat_lt
  have hmax : getRsPktMaxSize.toNat = 262143 := rfl
  have hbase : getRsPktBaseSize.toNat = 8 := rfl
  obtain ⟨hrejected, hlength⟩ := hfollows
  rw [extralen_add_of_whole hslice] at hrejected hlength
  by_cases hbig : getRsItemSize v.header > getRsPktMaxSize
  · left
    rw [hrejected, decide_eq_true hbig]
  · right
    intro length hsome
    rw [gt_iff_lt, UInt32.lt_iff_toNat_lt, hmax] at hbig
    rw [hlength] at hsome
    split_ifs at hsome
    cases hsome
    rw [toInt_toInt32, hnat, hmax, hbase]
    split_ifs <;> omega

/-- Exactly the packets whose size covers their header are rejected or read within the buffer. -/
theorem Visit.Follows.sane_iff {v : Visit} (hfollows : v.Follows) :
    v.Sane ↔ SizeCoversHeader v.header := by
  have hbase : getRsPktBaseSize.toNat = 8 := rfl
  constructor
  · intro hsane
    by_contra hcovers
    rw [SizeCoversHeader, UInt32.le_iff_toNat_le, hbase] at hcovers
    push Not at hcovers
    obtain ⟨hrejected, length, hlength, hneg⟩ := hfollows.asks_negative (by simp [hcovers.1]) hcovers.2
    rcases hsane with hsane | hsane
    · rw [hrejected] at hsane
      cases hsane
    · have hnonneg := (hsane length hlength).1
      omega
  · intro hcovers
    by_cases hslice : isPartialPacket v.header = true
    · exact hfollows.sane_of_slice hslice
    · have hsize := hcovers.resolve_left hslice
      rw [UInt32.le_iff_toNat_le, hbase] at hsize
      exact hfollows.sane_of_size hslice hsize

/-! ### One packet

What the code behind a header leaves: one more visit, the header where it was, and a reader that has
gone back to the start or stands where it stood.
-/

theorem addPartialPacketLocked_frame (s : Streamer Conn Item) (block : Memory) (len : UInt32) :
    ∃ partials, (addPartialPacketLocked deserialise s block len).2 =
      { s with mPartialPackets := partials } := by
  unfold addPartialPacketLocked
  dsimp only
  split <;> split_ifs <;> exact ⟨_, rfl⟩

theorem createPacket_frame (s : Streamer Conn Item) :
    ∃ partials incoming, createPacket deserialise s =
      restart { s with mPartialPackets := partials, mIncoming := incoming } := by
  unfold createPacket
  dsimp only
  split_ifs
  · obtain ⟨partials, hframe⟩ := @addPartialPacketLocked_frame _ _ deserialise s s.block
      (getRsPktBaseSize + extralen (headerOf s.block))
    rw [hframe]
    split
    · exact ⟨partials, _, rfl⟩
    · exact ⟨partials, s.mIncoming, rfl⟩
  · split
    · exact ⟨s.mPartialPackets, _, rfl⟩
    · exact ⟨s.mPartialPackets, s.mIncoming, rfl⟩

/-- Bytes behind the header leave the header. -/
theorem headerOf_blit (block : Memory) {offset : Nat} (hoffset : 8 ≤ offset) (bytes : List UInt8) :
    headerOf (blit block offset bytes) = headerOf block := by
  apply slice_congr
  intro i _ hi
  exact blit_of_outside block (by omega)

/-- Reading and closing do not make a new connection. -/
structure BinInterface.KeepsConnection (bio : BinInterface Conn) : Prop where
  moretoread : ∀ conn timeout, bio.connection (bio.moretoread conn timeout).2 = bio.connection conn
  readdata : ∀ conn length, bio.connection (bio.readdata conn length).2 = bio.connection conn
  close : ∀ conn, bio.connection (bio.close conn) = bio.connection conn

/-- From `s` the reader came by one header to `t`. -/
structure Passes (bio : BinInterface Conn) (fresh : Bool) (s t : Streamer Conn Item) : Prop where
  visits : ∃ rejected length,
    Visit.Follows ⟨bio.connection s.mBio, headerOf s.block, fresh, rejected, length⟩ ∧
      t.visits = s.visits ++ [⟨bio.connection s.mBio, headerOf s.block, fresh, rejected, length⟩]
  header : ∃ block, t.mPktRpending = some block ∧ headerOf block = headerOf s.block
  reading : t.mReadingState = .initial ∨ t.mReadingState = s.mReadingState
  connection : bio.KeepsConnection → bio.connection t.mBio = bio.connection s.mBio

variable {s : Streamer Conn Item}

theorem mPktRpendSize_of_isSome (halloc : s.mPktRpending.isSome = true) :
    s.mPktRpendSize = getRsPktMaxSize := if_pos halloc

theorem exists_block (halloc : s.mPktRpending.isSome = true) :
    ∃ block, s.mPktRpending = some block ∧ headerOf block = headerOf s.block := by
  obtain ⟨block, hblock⟩ := Option.isSome_iff_exists.mp halloc
  refine ⟨block, hblock, ?_⟩
  rw [Streamer.block, hblock]
  rfl

/-- The code after the read touches neither the visits nor the header. -/
theorem Passes.createPacket {fresh : Bool} {t : Streamer Conn Item} (hpasses : Passes bio fresh s t) :
    Passes bio fresh s (createPacket deserialise t) := by
  obtain ⟨partials, incoming, hframe⟩ := @createPacket_frame _ _ deserialise t
  rw [hframe]
  exact ⟨hpasses.visits, hpasses.header, .inl rfl, hpasses.connection⟩

theorem Passes.close {fresh : Bool} {t : Streamer Conn Item} (hpasses : Passes bio fresh s t) :
    Passes bio fresh s (restart { t with mBio := bio.close t.mBio }) :=
  ⟨hpasses.visits, hpasses.header, .inl rfl,
    fun hkeeps => (hkeeps.close _).trans (hpasses.connection hkeeps)⟩

theorem Passes.readdata {fresh : Bool} {t : Streamer Conn Item} (hpasses : Passes bio fresh s t)
    {offset : Nat} (hoffset : 8 ≤ offset) (length : Int32) :
    Passes bio fresh s (readdata bio t offset length).2 := by
  obtain ⟨block, hblock, hheader⟩ := hpasses.header
  refine ⟨hpasses.visits, ⟨_, rfl, ?_⟩, hpasses.reading,
    fun hkeeps => (hkeeps.readdata _ _).trans (hpasses.connection hkeeps)⟩
  rw [headerOf_blit _ hoffset, Streamer.block, hblock]
  exact hheader

theorem continuePacket_passes (halloc : s.mPktRpending.isSome = true) (fresh : Bool)
    (readbytes : Int32) :
    Passes bio fresh s (continuePacket bio deserialise s fresh readbytes).2 := by
  have hsize := mPktRpendSize_of_isSome halloc
  have hflag : ∃ accepts,
      (if isPartialPacket (headerOf s.block) then { s with mAcceptsPacketSlicing := true } else s) =
        { s with mAcceptsPacketSlicing := accepts } := by
    split_ifs
    · exact ⟨true, rfl⟩
    · exact ⟨s.mAcceptsPacketSlicing, rfl⟩
  obtain ⟨accepts, hflag⟩ := hflag
  have hvisit : ∀ rejected length,
      Visit.Follows ⟨bio.connection s.mBio, headerOf s.block, fresh, rejected, length⟩ →
        Passes bio fresh s
          (visit bio { s with mAcceptsPacketSlicing := accepts } fresh rejected length) :=
    fun rejected length hfollows =>
      ⟨⟨rejected, length, hfollows, rfl⟩, exists_block halloc, .inr rfl, fun _ => rfl⟩
  unfold continuePacket
  dsimp only
  rw [hflag]
  have hsize' : Streamer.mPktRpendSize { s with mAcceptsPacketSlicing := accepts } =
      getRsPktMaxSize := hsize
  rw [hsize']
  have hasked : ¬ extralen (headerOf s.block) + getRsPktBaseSize > getRsPktMaxSize →
      extralen (headerOf s.block) > 0 → Passes bio fresh s
        (readdata bio (visit bio { s with mAcceptsPacketSlicing := accepts } fresh false
          (some (extralen (headerOf s.block)).toInt32)) 8 (extralen (headerOf s.block)).toInt32).2 := by
    intro hbig hextra
    have hfollows := hvisit false (some (extralen (headerOf s.block)).toInt32)
      ⟨(decide_eq_false hbig).symm, by rw [if_neg hbig, if_pos hextra]⟩
    exact hfollows.readdata (Nat.le_refl 8) _
  split_ifs with hbig hextra hshort hfailed
  · exact (hvisit true none ⟨(decide_eq_true hbig).symm, (if_pos hbig).symm⟩).close
  · have hpasses := hasked hbig hextra
    exact Passes.close ⟨hpasses.visits, hpasses.header, hpasses.reading, hpasses.connection⟩
  · have hpasses := hasked hbig hextra
    exact ⟨hpasses.visits, hpasses.header, hpasses.reading, hpasses.connection⟩
  · exact (hasked hbig hextra).createPacket
  · have hpasses := hvisit false none
      ⟨(decide_eq_false hbig).symm, by rw [if_neg hbig, if_neg hextra]⟩
    exact hpasses.createPacket

/-- A header that is not there yet leaves the reader at the start; one that is there is passed. -/
theorem startPacketRead_cases (s : Streamer Conn Item) (readbytes : Int32) :
    (∃ status block, startPacketRead bio deserialise s readbytes =
      (.done status, { s with
        mBio := (bio.readdata s.mBio 8).2, mPktRpending := some block })) ∨
    ∃ block accepts, Passes bio true
      { s with
        mBio := (bio.readdata s.mBio 8).2
        mPktRpending := some block
        mReadingState := .packetStarted
        mFailedReadAttempts := 0
        mAcceptsPacketSlicing := accepts }
      (startPacketRead bio deserialise s readbytes).2 := by
  unfold startPacketRead
  have hbase : getRsPktBaseSize.toInt32 = 8 := rfl
  dsimp only
  rw [hbase]
  by_cases hshort : (readdata bio
      { s with mPktRpending := some (blit s.block 0 (List.replicate 8 0)) } 0 8).1 ≠ 8
  · rw [if_pos hshort]
    exact .inl ⟨_, _, rfl⟩
  · rw [if_neg hshort]
    right
    split_ifs
    · exact ⟨_, true, continuePacket_passes rfl true _⟩
    · exact ⟨_, s.mAcceptsPacketSlicing, continuePacket_passes rfl true _⟩

/-! ### Calls and runs -/

/-- A property of the reader between packets lasts through the packets of a call. -/
theorem nextPackets_keeps {maxin : Int32} (Between : Flow → Streamer Conn Item → Prop)
    (hmore : ∀ readbytes s, Between (.next readbytes) s →
      Between (.next readbytes) { s with mBio := (bio.moretoread s.mBio 0).2 })
    (hstart : ∀ readbytes s, Between (.next readbytes) s →
      Between (startPacketRead bio deserialise s readbytes).1
        (startPacketRead bio deserialise s readbytes).2) :
    ∀ (fuel : Nat) (flow : Flow) (s : Streamer Conn Item), Between flow s →
      ∃ flow', Between flow' (nextPackets bio deserialise maxin fuel flow s).2
  | 0, .done status, s, hbetween => ⟨_, hbetween⟩
  | _ + 1, .done status, s, hbetween => ⟨_, hbetween⟩
  | 0, .next readbytes, s, hbetween => ⟨_, hbetween⟩
  | fuel + 1, .next readbytes, s, hbetween => by
      rw [nextPackets]
      split_ifs
      · dsimp only
        split_ifs
        · exact nextPackets_keeps Between hmore hstart fuel _ _ (hstart _ _ (hmore _ _ hbetween))
        · exact ⟨_, hmore _ _ hbetween⟩
      · exact ⟨_, hbetween⟩

/-- Every arrival so far follows from its header. -/
def AllFollow (s : Streamer Conn Item) : Prop := ∀ v ∈ s.visits, v.Follows

theorem Passes.allFollow {fresh : Bool} {t : Streamer Conn Item} (hpasses : Passes bio fresh s t)
    (hall : AllFollow s) : AllFollow t := by
  obtain ⟨rejected, length, hfollows, hvisits⟩ := hpasses.visits
  intro v hv
  rw [hvisits] at hv
  rcases List.mem_append.mp hv with hv | hv
  · exact hall v hv
  · rw [List.mem_singleton.mp hv]
    exact hfollows

theorem startPacketRead_allFollow (hall : AllFollow s) (readbytes : Int32) :
    AllFollow (startPacketRead bio deserialise s readbytes).2 := by
  rcases @startPacketRead_cases _ _ bio deserialise s readbytes with
    ⟨status, block, hdone⟩ | ⟨block, accepts, hpasses⟩
  · rw [hdone]
    exact hall
  · exact hpasses.allFollow hall

theorem handleincomingLocked_allFollow (hall : AllFollow s) (maxin : Int32) (fuel : Nat) :
    AllFollow (handleincomingLocked bio deserialise maxin fuel s).2 := by
  have hloop : ∀ flow t, AllFollow t →
      AllFollow (nextPackets bio deserialise maxin fuel flow t).2 := by
    intro flow t ht
    obtain ⟨_, hkept⟩ := @nextPackets_keeps _ _ bio deserialise maxin (fun _ t => AllFollow t)
      (fun _ _ hall => hall) (fun readbytes _ hall => startPacketRead_allFollow hall readbytes)
      fuel flow t ht
    exact hkept
  unfold handleincomingLocked
  split_ifs
  · exact hall
  · have hall' : AllFollow (allocateRpendLocked s) := hall
    apply hloop
    split
    · exact startPacketRead_allFollow hall' 0
    · exact (continuePacket_passes rfl false 0).allFollow hall'

theorem step_allFollow (hall : AllFollow s) {op : Op Conn} {after : Streamer Conn Item}
    (hstep : step bio deserialise s op = some after) : AllFollow after := by
  cases op with
  | receive timeout maxin fuel =>
      cases hstep
      unfold receive
      dsimp only
      have hall' : AllFollow { s with mBio := (bio.moretoread s.mBio timeout).2 } := hall
      split_ifs
      · exact handleincomingLocked_allFollow hall' maxin fuel
      · exact hall'
  | freeWhenInactive =>
      cases hstep
      unfold freeWhenInactive
      split_ifs
      · exact hall
      · exact hall
  | reset =>
      cases hstep
      exact hall
  | change conn =>
      cases hstep
      exact hall

/-- A tick is two steps of a run. -/
theorem tickRecv_reaches (s : Streamer Conn Item) (timeout : Nat) (maxin : Int32) (fuel : Nat) :
    Reaches (step bio deserialise) (fun _ _ => True) s
      (tickRecv bio deserialise timeout maxin fuel s) :=
  ((Reaches.refl s).next (.receive timeout maxin fuel) trivial rfl).next .freeWhenInactive trivial rfl

theorem tickSend_reaches (s : Streamer Conn Item) (send : Conn → Conn) :
    Reaches (step bio deserialise) (fun _ _ => True) s (tickSend bio send s) := by
  have hfree : Reaches (step bio deserialise) (fun _ _ => True) s (freeWhenInactive bio s) :=
    (Reaches.refl s).next .freeWhenInactive trivial rfl
  unfold tickSend
  dsimp only
  split_ifs
  · exact hfree.next (.change (send (freeWhenInactive bio s).mBio)) trivial rfl
  · exact hfree

/-- **Lengths asked of the connection.** In every run of the reader, a packet is rejected or read within
the buffer exactly when it is a slice or its size covers its header. -/
theorem lengths_sane_iff (bio : BinInterface Conn) (deserialise : Deserialise Item) (conn : Conn)
    (s : Streamer Conn Item)
    (hreach : Reaches (step bio deserialise) (fun _ _ => True) (Streamer.new conn) s) :
    ∀ v ∈ s.visits, v.Sane ↔ SizeCoversHeader v.header := by
  have hnew : AllFollow (Streamer.new conn : Streamer Conn Item) := fun _ hv => nomatch hv
  have hall := hreach.invariant AllFollow (fun _ _ _ hall _ hstep => step_allFollow hall hstep) hnew
  exact fun v hv => (hall v hv).sane_iff

/-! ### A queue of bytes

A connection that has received some bytes and hands them out in whole lengths, as a connection does.
-/

def queueInterface : BinInterface (List UInt8) where
  connection _ := 0
  isactive _ := true
  moretoread queue _ := (!queue.isEmpty, queue)
  readdata queue length :=
    if 0 < length.toInt ∧ length.toInt ≤ queue.length then
      ((length, queue.take length.toInt.toNat), queue.drop length.toInt.toNat)
    else ((-1, []), queue)
  close _ := []

/-- No packet is known to the serialiser. -/
def noItems : Deserialise Unit := fun _ size => (none, size)

/-- A packet of size five: the reader asks for three bytes less than none. -/
def shortReading : Streamer (List UInt8) Unit :=
  receive queueInterface noItems 0 100 1 (Streamer.new [0x02, 0, 0, 1, 0, 0, 0, 5])

theorem shortReading_visits :
    shortReading.visits = [⟨0, [0x02, 0, 0, 1, 0, 0, 0, 5], true, false, some (-3)⟩] := by
  decide

theorem shortReading_reached :
    Reaches (step queueInterface noItems) (fun _ _ => True)
      (Streamer.new [0x02, 0, 0, 1, 0, 0, 0, 5]) shortReading :=
  (Reaches.refl _).next (.receive 0 100 1) trivial rfl

theorem lengths_sane_counterexample :
    ¬ ∀ s, Reaches (step queueInterface noItems) (fun _ _ => True)
        (Streamer.new [0x02, 0, 0, 1, 0, 0, 0, 5]) s → ∀ v ∈ s.visits, v.Sane := by
  intro hclaim
  have hsane := hclaim shortReading shortReading_reached
  rw [shortReading_visits] at hsane
  rcases hsane _ (List.mem_singleton.mpr rfl) with hrejected | hlength
  · cases hrejected
  · exact absurd (hlength (-3) rfl).1 (by decide)

/-- The same header is the one that does not cover itself. -/
theorem lengths_sane_short :
    ¬ SizeCoversHeader [0x02, 0, 0, 1, 0, 0, 0, 5] ∧
      ∀ v ∈ shortReading.visits, v.Sane ↔ SizeCoversHeader v.header :=
  ⟨by unfold SizeCoversHeader; decide,
    lengths_sane_iff queueInterface noItems _ shortReading shortReading_reached⟩

end RetroShare.PqiStreamer
