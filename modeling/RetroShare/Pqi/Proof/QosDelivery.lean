import RetroShare.Pqi.Proof.QosQueue

/-!
# Every packet arrives once, whole, and in the order of its level

Slices of different packets go out in any mixture. The reader collects each packet under its number, and
what it has of one is what the queue has given out.
-/

namespace RetroShare.PqiQoS

open Bytes Dividers PqiStreamer Transition

/-! ### Blocks at the reader -/

theorem slice_left {mem : Memory} {offset : Nat} {first second : List UInt8}
    (hholds : Holds mem offset (first ++ second)) : slice mem offset first.length = first :=
  (holds_append_iff.mp hholds).1

theorem slice_right {mem : Memory} {offset : Nat} {first second : List UInt8}
    (hholds : Holds mem offset (first ++ second)) :
    slice mem (offset + first.length) second.length = second :=
  (holds_append_iff.mp hholds).2

/-- What the sender makes of an item: its size is in its header, and its version is not that of a slice. -/
structure Packet (data : List UInt8) : Prop where
  header : 8 ≤ data.length
  length : data.length ≤ 2 ^ 30
  size : (getRsItemSize (data.take 8)).toNat = data.length
  version : data[0]? ≠ some 0x10

variable {r : Streamer Unit (List UInt8)} {rest : Memory} {data : List UInt8} {out : Slice}

theorem Packet.not_partial (hpacket : Packet data) : isPartialPacket (data.take 8) = false := by
  have hfirst : (data.take 8)[0]? = data[0]? := List.getElem?_take_of_lt (by decide)
  have hversion : decide ((data.take 8)[0]? = some 0x10) = false := by
    rw [hfirst]
    exact decide_eq_false hpacket.version
  rw [isPartialPacket, hversion, Bool.false_and]

theorem Packet.extralen_add (hpacket : Packet data) :
    (extralen (data.take 8)).toNat + 8 = data.length := by
  have hle : getRsPktBaseSize ≤ getRsItemSize (data.take 8) := by
    rw [UInt32.le_iff_toNat_le, hpacket.size]
    exact hpacket.header
  have hbase : getRsPktBaseSize.toNat = 8 := rfl
  rw [extralen, hpacket.not_partial, if_neg Bool.false_ne_true, UInt32.toNat_sub_of_le _ _ hle,
    hpacket.size, hbase, Nat.sub_add_cancel hpacket.header]

/-- The reader with a block in its buffer. -/
def holding (r : Streamer Unit (List UInt8)) (rest : Memory) (block : List UInt8) :
    Streamer Unit (List UInt8) := { r with mPktRpending := some (blit rest 0 block) }

/-- A block that its header tells the length of is read. -/
theorem receiveBlock_eq {block header : List UInt8} (hheader : headerOf (blit rest 0 block) = header)
    (hextra : (extralen header).toNat + 8 = block.length) (hlength : block.length ≤ 262143) :
    receiveBlock r rest block = some (createPacket rawItem (holding r rest block)) ∧
      (getRsPktBaseSize + extralen header).toNat = block.length := by
  have hbase : getRsPktBaseSize.toNat = 8 := rfl
  have hmax : getRsPktMaxSize.toNat = 262143 := rfl
  have hsum : (getRsPktBaseSize + extralen header).toNat = block.length := by
    rw [UInt32.toNat_add, hbase, Nat.mod_eq_of_lt (by omega)]
    omega
  refine ⟨if_neg ?_, hsum⟩
  change ¬(block.length < 8 ∨
    extralen (headerOf (blit rest 0 block)) + getRsPktBaseSize > getRsPktMaxSize ∨
    (extralen (headerOf (blit rest 0 block))).toNat + 8 ≠ block.length)
  rw [hheader, UInt32.add_comm, gt_iff_lt, UInt32.lt_iff_toNat_lt, hsum, hmax]
  omega

variable (rest) in
/-- A whole packet. -/
theorem receive_packet (hpacket : Packet data) (hlength : data.length ≤ 262143) :
    ∃ r', receiveBlock r rest data = some r' ∧ r'.mIncoming = r.mIncoming ++ [data] ∧
      r'.mPartialPackets = r.mPartialPackets := by
  have hholds := holds_blit rest 0 data
  have hheader : headerOf (blit rest 0 data) = data.take 8 := by
    have hsplit := hholds
    rw [← List.take_append_drop 8 data] at hsplit
    have hfirst := slice_left hsplit
    rw [List.length_take, Nat.min_eq_left hpacket.header, List.take_append_drop] at hfirst
    exact hfirst
  obtain ⟨hblock, hlen⟩ := receiveBlock_eq (r := r) hheader hpacket.extralen_add hlength
  have hcreate : createPacket rawItem (holding r rest data) =
      restart { holding r rest data with mIncoming := r.mIncoming ++ [data] } := by
    have hwhole : isPartialPacket (headerOf (holding r rest data).block) = false := by
      change isPartialPacket (headerOf (blit rest 0 data)) = false
      rw [hheader]
      exact hpacket.not_partial
    have hraw : rawItem (holding r rest data).block
        (getRsPktBaseSize + extralen (headerOf (holding r rest data).block)) =
          (some data, getRsPktBaseSize + extralen (data.take 8)) := by
      change rawItem (blit rest 0 data) (getRsPktBaseSize + extralen (headerOf (blit rest 0 data))) = _
      rw [hheader, rawItem, hlen, hholds]
    simp only [createPacket, hwhole, Bool.false_eq_true, if_false, hraw]
    rfl
  exact ⟨_, hblock, by rw [hcreate]; rfl, by rw [hcreate]; rfl⟩

/-! ### Slices at the reader -/

/-- A slice is not a whole packet. -/
structure Part (out : Slice) (dta : List UInt8) : Prop where
  part : ¬(out.starts = true ∧ out.ends = true)
  size : out.size = dta.length
  bound : dta.length ≤ 512
  packetId : out.packetId < 2 ^ 32

variable {dta : List UInt8}

theorem length_sliceHeader (out : Slice) : (sliceHeader out).length = 8 := by
  simp [sliceHeader]

theorem sliceHeader_eq (out : Slice) : sliceHeader out =
    0x10 :: ((if out.starts then 0x01 else 0) ||| (if out.ends then 0x02 else 0)) ::
      (bigEndian 4 out.packetId ++ bigEndian 2 out.size) := rfl

theorem Part.flags (hpart : Part out dta) :
    isPartialPacket (sliceHeader out) = true ∧
      isPacketStarting (sliceHeader out) = out.starts ∧
      isPacketEnding (sliceHeader out) = out.ends := by
  have hnot := hpart.part
  rw [sliceHeader_eq]
  unfold isPartialPacket isPacketStarting isPacketEnding isPacketMiddle
  cases hstarts : out.starts with
  | true =>
      cases hends : out.ends with
      | true => exact absurd ⟨hstarts, hends⟩ hnot
      | false => exact ⟨rfl, rfl, rfl⟩
  | false =>
      cases hends : out.ends with
      | true => exact ⟨rfl, rfl, rfl⟩
      | false => exact ⟨rfl, rfl, rfl⟩

theorem Part.slicePacketId (hpart : Part out dta) : slicePacketId (sliceHeader out) = out.packetId := by
  have hfield : ((sliceHeader out).drop 2).take 4 = bigEndian 4 out.packetId := by
    rw [sliceHeader_eq, List.drop_succ_cons, List.drop_succ_cons, List.drop_zero]
    exact List.take_left' (length_bigEndian 4 _)
  rw [PqiStreamer.slicePacketId, hfield, ofBigEndian_bigEndian]
  exact Nat.mod_eq_of_lt hpart.packetId

theorem Part.extralen (hpart : Part out dta) : (extralen (sliceHeader out)).toNat = dta.length := by
  have hfield : ((sliceHeader out).drop 6).take 2 = bigEndian 2 out.size := by
    have hdrop : (bigEndian 4 out.packetId ++ bigEndian 2 out.size).drop 4 = bigEndian 2 out.size :=
      List.drop_left' (length_bigEndian 4 _)
    rw [sliceHeader_eq, List.drop_succ_cons, List.drop_succ_cons, hdrop]
    exact List.take_of_length_le (length_bigEndian 2 _).le
  have hbound := hpart.bound
  rw [PqiStreamer.extralen, if_pos hpart.flags.1, hfield, ofBigEndian_bigEndian, hpart.size,
    UInt32.toNat_ofNat', Nat.mod_eq_of_lt (by omega), Nat.mod_eq_of_lt (by omega)]

theorem createPacket_slice {s s' : Streamer Unit (List UInt8)} {header : List UInt8}
    {pkt : Option (List UInt8)} {size : UInt32} (hheader : headerOf s.block = header)
    (hslice : isPartialPacket header = true)
    (hadd : addPartialPacketLocked rawItem s s.block (getRsPktBaseSize + extralen header) =
      ((pkt, size), s')) :
    createPacket rawItem s = restart { s' with mIncoming := s'.mIncoming ++ pkt.toList } := by
  subst hheader
  unfold createPacket
  simp only [hslice, if_true, hadd]
  cases pkt with
  | none => rw [Option.toList_none, List.append_nil]
  | some item => rw [Option.toList_some]

/-- What the buffer holds, field by field. -/
structure Holding (mem : Memory) (out : Slice) (dta : List UInt8) (len : UInt32) : Prop where
  header : headerOf mem = sliceHeader out
  data : slice mem partialPacketHeaderSize (len.toNat - partialPacketHeaderSize) = dta

variable {s : Streamer Unit (List UInt8)} {mem : Memory} {len : UInt32} {rec : List UInt8}

theorem addPartialPacket_starts (hholding : Holding mem out dta len) (hpart : Part out dta)
    (hstarts : out.starts = true) :
    addPartialPacketLocked rawItem s mem len = ((none, 0),
      { s with mPartialPackets := s.mPartialPackets.insert out.packetId dta }) := by
  have hends : out.ends = false := by
    by_contra hends
    exact hpart.part ⟨hstarts, by simpa using hends⟩
  obtain ⟨_, hstarting, hending⟩ := hpart.flags
  unfold addPartialPacketLocked
  simp only [hholding.header, hholding.data, hpart.slicePacketId, hstarting, hending, hstarts, hends,
    if_true, Bool.false_eq_true, if_false, List.nil_append]
  cases s.mPartialPackets[out.packetId]? <;> rfl

theorem addPartialPacket_continues (hholding : Holding mem out dta len) (hpart : Part out dta)
    (hstarts : out.starts = false) (hends : out.ends = false)
    (hrec : s.mPartialPackets[out.packetId]? = some rec) :
    addPartialPacketLocked rawItem s mem len = ((none, 0),
      { s with mPartialPackets := s.mPartialPackets.insert out.packetId (rec ++ dta) }) := by
  obtain ⟨_, hstarting, hending⟩ := hpart.flags
  unfold addPartialPacketLocked
  simp only [hholding.header, hholding.data, hpart.slicePacketId, hstarting, hending, hstarts, hends,
    hrec, Bool.false_eq_true, if_false]

theorem addPartialPacket_ends (hholding : Holding mem out dta len) (hpart : Part out dta)
    (hstarts : out.starts = false) (hends : out.ends = true)
    (hrec : s.mPartialPackets[out.packetId]? = some rec) (hlength : (rec ++ dta).length < 2 ^ 32) :
    ∃ size, addPartialPacketLocked rawItem s mem len = ((some (rec ++ dta), size),
      { s with mPartialPackets := s.mPartialPackets.erase out.packetId }) := by
  obtain ⟨_, hstarting, hending⟩ := hpart.flags
  have hsize : (UInt32.ofNat (rec ++ dta).length).toNat = (rec ++ dta).length := by
    rw [UInt32.toNat_ofNat', Nat.mod_eq_of_lt hlength]
  have hraw : rawItem (blit (fun _ => 0) 0 (rec ++ dta)) (UInt32.ofNat (rec ++ dta).length) =
      (some (rec ++ dta), UInt32.ofNat (rec ++ dta).length) := by
    rw [rawItem, hsize, holds_blit]
  refine ⟨UInt32.ofNat (rec ++ dta).length, ?_⟩
  unfold addPartialPacketLocked
  simp only [hholding.header, hholding.data, hpart.slicePacketId, hstarting, hending, hstarts, hends,
    hrec, Bool.false_eq_true, if_false, if_true, hraw]

variable (rest) in
/-- **A slice** is added to what the reader has of its packet. -/
theorem receive_slice (hpart : Part out dta) {result : Option (List UInt8)}
    {records : OrderedMap Nat (List UInt8)}
    (hadd : ∀ s : Streamer Unit (List UInt8), s.mPartialPackets = r.mPartialPackets → ∀ mem len,
      Holding mem out dta len → ∃ size, addPartialPacketLocked rawItem s mem len =
        ((result, size), { s with mPartialPackets := records })) :
    ∃ r', receiveBlock r rest (sliceHeader out ++ dta) = some r' ∧
      r'.mIncoming = r.mIncoming ++ result.toList ∧ r'.mPartialPackets = records := by
  have hholds := holds_blit rest 0 (sliceHeader out ++ dta)
  have hheader : headerOf (blit rest 0 (sliceHeader out ++ dta)) = sliceHeader out := by
    have hfirst := slice_left hholds
    rwa [length_sliceHeader] at hfirst
  have hlength : (sliceHeader out ++ dta).length = 8 + dta.length := by
    rw [List.length_append, length_sliceHeader]
  have hbound := hpart.bound
  obtain ⟨hblock, hlen⟩ := receiveBlock_eq (r := r) hheader
    (by rw [hpart.extralen, hlength, Nat.add_comm]) (by omega)
  have hholding : Holding (blit rest 0 (sliceHeader out ++ dta)) out dta
      (getRsPktBaseSize + extralen (sliceHeader out)) := by
    refine ⟨hheader, ?_⟩
    have hsecond := slice_right hholds
    rw [hlen, hlength, partialPacketHeaderSize, Nat.add_sub_cancel_left]
    rwa [length_sliceHeader, Nat.zero_add] at hsecond
  obtain ⟨size, hadd⟩ := hadd (holding r rest (sliceHeader out ++ dta)) rfl _ _ hholding
  have hcreate := createPacket_slice (s := holding r rest (sliceHeader out ++ dta)) hheader
    hpart.flags.1 hadd
  exact ⟨_, hblock, by rw [hcreate]; rfl, by rw [hcreate]; rfl⟩

/-! ### From the queue to the reader -/

/-- The size that the sender asks for. -/
def desired (accepts : Bool) : Nat := if accepts then optimalPacketSize else getRsPktMaxSize.toNat

theorem desired_pos (accepts : Bool) : 0 < desired accepts ∧ desired accepts ≤ 262143 := by
  have hmax : getRsPktMaxSize.toNat = 262143 := rfl
  unfold desired optimalPacketSize
  split <;> omega

variable {s s' : PqiQoS} {item : ItemRecord} {r : Streamer Unit (List UInt8)} {accepts : Bool}

theorem popOutData_eq
    (hcall : s.outRsItem (desired accepts) ⟨0, true, true, 0⟩ = (some dta, out, s')) :
    s.popOutData accepts =
      if out.starts ∧ out.ends then (.block dta, s')
      else if 0xffff < out.size ∨ !accepts then (.protocolError, s')
      else (.block (sliceHeader out ++ dta), s') := by
  unfold desired at hcall
  rw [popOutData, hcall]

variable (rest) in
/-- **One slice on its way.** The reader has the packet, or as much of it as has been given out. -/
theorem send_slice (hpacket : Packet item.data) (hid : item.id < 2 ^ 24)
    (hstarted : 0 < item.currentOffset → accepts = true ∧
      r.mPartialPackets[item.id]? = some (item.data.take item.currentOffset))
    (hfits : accepts = false → item.size ≤ 262143)
    (hcall : s.outRsItem (desired accepts) ⟨0, true, true, 0⟩ = (some (item.next (desired accepts)),
      ⟨(item.next (desired accepts)).length, item.currentOffset = 0, item.last (desired accepts), item.id⟩,
      s')) :
    ∃ bytes r', s.popOutData accepts = (.block bytes, s') ∧ receiveBlock r rest bytes = some r' ∧
      r'.mIncoming = r.mIncoming ++ (if item.last (desired accepts) then [item.data] else []) ∧
      (∀ id ≠ item.id, r'.mPartialPackets[id]? = r.mPartialPackets[id]?) ∧
      (item.last (desired accepts) = false → accepts = true ∧ r'.mPartialPackets[item.id]? =
        some (item.data.take (item.currentOffset + desired accepts))) := by
  obtain ⟨hpos, hdesired⟩ := desired_pos accepts
  have hlength : item.data.length ≤ 2 ^ 30 := hpacket.length
  have hpop := popOutData_eq hcall
  by_cases hwhole : item.currentOffset = 0 ∧ item.last (desired accepts) = true
  · obtain ⟨hzero, hlast⟩ := hwhole
    have hsize := of_decide_eq_true hlast
    rw [hzero, Nat.zero_add] at hsize
    have hnext : item.next (desired accepts) = item.data := by
      rw [ItemRecord.next, hzero, List.drop_zero]
      exact List.take_of_length_le hsize
    obtain ⟨r', hreceive, hincoming, hrecords⟩ :=
      receive_packet (r := r) rest hpacket (hsize.trans hdesired)
    refine ⟨item.data, r', ?_, hreceive, ?_, fun id _ => by rw [hrecords], fun hno => ?_⟩
    · rw [hpop]
      dsimp only
      rw [if_pos ⟨decide_eq_true hzero, hlast⟩, hnext]
    · rw [hincoming, hlast, if_pos rfl]
    · rw [hlast] at hno
      cases hno
  · have haccepts : accepts = true := by
      by_contra hno
      have hno : accepts = false := by simpa using hno
      have hzero : item.currentOffset = 0 := by
        by_contra hne
        have hyes := (hstarted (Nat.pos_of_ne_zero hne)).1
        rw [hno] at hyes
        cases hyes
      refine hwhole ⟨hzero, decide_eq_true ?_⟩
      rw [hzero, hno, Nat.zero_add]
      exact hfits hno
    have hdes : desired accepts = 512 := by rw [haccepts]; rfl
    have hshort : (item.next (desired accepts)).length ≤ 512 := by
      rw [ItemRecord.next, ← hdes]
      exact List.length_take_le _ _
    have hpart : Part ⟨(item.next (desired accepts)).length, item.currentOffset = 0,
        item.last (desired accepts), item.id⟩ (item.next (desired accepts)) := by
      refine ⟨?_, rfl, hshort, by dsimp only; omega⟩
      rintro ⟨hstarts, hends⟩
      exact hwhole ⟨of_decide_eq_true hstarts, hends⟩
    have hblock : s.popOutData accepts = (.block (sliceHeader ⟨(item.next (desired accepts)).length,
        item.currentOffset = 0, item.last (desired accepts), item.id⟩ ++ item.next (desired accepts)),
        s') := by
      rw [hpop]
      dsimp only
      rw [if_neg fun hboth => hwhole ⟨of_decide_eq_true hboth.1, hboth.2⟩, if_neg ?_]
      rintro (hbig | hno)
      · omega
      · rw [haccepts] at hno
        cases hno
    have happend : item.data.take item.currentOffset ++ item.next (desired accepts) =
        item.data.take (item.currentOffset + desired accepts) := List.take_add.symm
    by_cases hzero : item.currentOffset = 0
    · have hlast : item.last (desired accepts) = false := by
        by_contra hlast
        exact hwhole ⟨hzero, by simpa using hlast⟩
      obtain ⟨r', hreceive, hincoming, hrecords⟩ := receive_slice (r := r) rest hpart
        fun s hs mem len hholding =>
          ⟨0, hs ▸ addPartialPacket_starts hholding hpart (decide_eq_true hzero)⟩
      refine ⟨_, r', hblock, hreceive, ?_, fun id hid => ?_, fun _ => ?_⟩
      · rw [hincoming, hlast]
        rfl
      · rw [hrecords, OrderedMap.lookup_insert_ne _ _ hid.symm]
      · refine ⟨haccepts, ?_⟩
        rw [hrecords, OrderedMap.lookup_insert_self, ← happend, hzero, List.take_zero, List.nil_append]
    · have hrecord := (hstarted (Nat.pos_of_ne_zero hzero)).2
      cases hlast : item.last (desired accepts) with
      | false =>
          obtain ⟨r', hreceive, hincoming, hrecords⟩ := receive_slice (r := r) rest hpart
            fun s hs mem len hholding => ⟨0, hs ▸ addPartialPacket_continues hholding hpart
              (decide_eq_false hzero) hlast (hs ▸ hrecord)⟩
          refine ⟨_, r', hlast ▸ hblock, hlast ▸ hreceive, ?_, fun id hid => ?_, fun _ => ?_⟩
          · rw [hincoming]
            rfl
          · rw [hrecords, OrderedMap.lookup_insert_ne _ _ hid.symm]
          · refine ⟨haccepts, ?_⟩
            rw [hrecords, OrderedMap.lookup_insert_self, happend]
      | true =>
          have hdata : item.data.take (item.currentOffset + desired accepts) = item.data :=
            List.take_of_length_le (of_decide_eq_true hlast)
          obtain ⟨r', hreceive, hincoming, hrecords⟩ := receive_slice (r := r) rest hpart
            fun s hs mem len hholding => hs ▸ addPartialPacket_ends hholding hpart
              (decide_eq_false hzero) hlast (hs ▸ hrecord) (by rw [happend, hdata]; omega)
          refine ⟨_, r', hlast ▸ hblock, hlast ▸ hreceive, ?_, fun id hid => ?_, fun hno => ?_⟩
          · rw [hincoming, happend, hdata]
            rfl
          · rw [hrecords, OrderedMap.lookup_erase_ne _ hid.symm]
          · cases hno

/-! ### Runs -/

def ItemRecord.left (item : ItemRecord) : Nat := item.size - item.currentOffset

/-- The bytes that have not been given out. -/
def pending (s : PqiQoS) : Nat :=
  ∑ k ∈ Finset.range s.levels, ((s.itemQueues k).items.map ItemRecord.left).sum

theorem left_remaining_lt {maxSize : Nat} {others : List ItemRecord} (hpos : 0 < maxSize)
    (hoffset : item.currentOffset < item.size) :
    ((remaining maxSize (item :: others)).map ItemRecord.left).sum <
      ((item :: others).map ItemRecord.left).sum := by
  rw [remaining]
  split
  · rw [List.map_cons, List.sum_cons, ItemRecord.left]
    omega
  · simp only [List.map_cons, List.sum_cons, ItemRecord.left, ItemRecord.advance, ItemRecord.size]
    unfold ItemRecord.size at hoffset
    omega

/-- What is left of a level: packets from behind the first, and the rest of the first. -/
theorem mem_remaining {maxSize : Nat} {others : List ItemRecord} {item' : ItemRecord}
    (hitem : item' ∈ remaining maxSize (item :: others)) :
    item' ∈ others ∨ (item' = item.advance maxSize ∧ item.last maxSize = false) := by
  rw [remaining] at hitem
  split at hitem
  · exact Or.inl hitem
  · next hlast =>
      rcases List.mem_cons.mp hitem with rfl | hitem
      · exact Or.inr ⟨rfl, by simpa using hlast⟩
      · exact Or.inl hitem

theorem ids_remaining_sublist (maxSize : Nat) (item : ItemRecord) (others : List ItemRecord) :
    ((remaining maxSize (item :: others)).map ItemRecord.id).Sublist
      ((item :: others).map ItemRecord.id) := by
  rw [remaining]
  split
  · rw [List.map_cons]
    exact List.sublist_cons_self _ _
  · exact List.Sublist.refl _

namespace Connection

variable {s s' : Connection} {op : Op} {rest : Memory} {k : Nat}

/-- The numbers of the packets that wait. -/
def ids (s : Connection) (k : Nat) : List Nat := (s.sender.itemQueues k).items.map ItemRecord.id

/-- Packets are what the sender makes of items, and none gets the number of one that still waits. A
reader without slicing needs packets that fit into its buffer. -/
def Op.Lawful (s : Connection) : Op → Prop
  | .queue data _ => Packet data ∧ ∀ k, s.sender.idCounter ∉ s.ids k
  | .accept => True
  | .send _ => s.acceptsPacketSlicing = false →
      ∀ k, ∀ item ∈ (s.sender.itemQueues k).items, item.size ≤ 262143

/-- `delivered` and what waits, level by level, are what was queued. -/
def Accounts (s : Connection) (delivered : List (Nat × List UInt8)) : Prop :=
  s.reader.mIncoming = delivered.map Prod.snd ∧
    ∀ level, (s.queued.filter (·.1 = level)).map Prod.snd =
      (delivered.filter (·.1 = level)).map Prod.snd ++
        (s.sender.itemQueues level).items.map ItemRecord.data

structure Sound (s : Connection) : Prop where
  levels : s.sender.levels = 10
  tuned : Tuned 10 2 s.sender.itemQueues
  count : s.sender.nbItems = ∑ k ∈ Finset.range 10, (s.sender.itemQueues k).items.length
  packets : ∀ k, ∀ item ∈ (s.sender.itemQueues k).items,
    Packet item.data ∧ item.currentOffset < item.size ∧ item.id < 2 ^ 24
  idCounter : s.sender.idCounter < 2 ^ 24
  started : ∀ k, ∀ item ∈ (s.sender.itemQueues k).items, 0 < item.currentOffset →
    s.acceptsPacketSlicing = true ∧
      s.reader.mPartialPackets[item.id]? = some (item.data.take item.currentOffset)
  nodup : ∀ k, (s.ids k).Nodup
  apart : ∀ k k', k ≠ k' → ∀ id ∈ s.ids k, id ∉ s.ids k'
  accounts : ∃ delivered, s.Accounts delivered

theorem Sound.waits (hsound : s.Sound) (k : Nat) {item : ItemRecord}
    (hitem : item ∈ (s.sender.itemQueues k).items) : item.Waits :=
  ⟨(hsound.packets k item hitem).2.1, (hsound.packets k item hitem).1.length⟩

theorem sound_start : start.Sound where
  levels := rfl
  tuned := tuned_new (by decide)
  count := (Finset.sum_eq_zero fun _ _ => rfl).symm
  packets := fun _ _ hitem => absurd hitem List.not_mem_nil
  idCounter := by decide
  started := fun _ _ hitem => absurd hitem List.not_mem_nil
  nodup := fun _ => List.nodup_nil
  apart := fun _ _ _ _ hid => absurd hid List.not_mem_nil
  accounts := ⟨[], rfl, fun _ => rfl⟩

/-- The connection after a packet was queued. -/
def queueing (s : Connection) (data : List UInt8) (priority : Nat) : Connection :=
  { s with
    sender := s.sender.inRsItem data priority
    queued := s.queued ++ [(s.sender.level priority, data)] }

theorem mem_ids_queueing {data : List UInt8} {priority id : Nat} :
    id ∈ (s.queueing data priority).ids k ↔
      id ∈ s.ids k ∨ (k = s.sender.level priority ∧ id = s.sender.idCounter) := by
  unfold ids queueing
  rw [items_inRsItem]
  split
  · next heq => simp [heq]
  · next hne => simp [hne]

theorem Sound.queue (hsound : s.Sound) {data : List UInt8} {priority : Nat}
    (hlawful : (Op.queue data priority).Lawful s) : (s.queueing data priority).Sound := by
  obtain ⟨hpacket, hfresh⟩ := hlawful
  have hitems := fun k => items_inRsItem s.sender data priority k
  have hmem : ∀ k, ∀ item ∈ ((s.queueing data priority).sender.itemQueues k).items,
      item ∈ (s.sender.itemQueues k).items ∨ item = ⟨data, 0, s.sender.idCounter⟩ := by
    intro k item hitem
    change item ∈ ((s.sender.inRsItem data priority).itemQueues k).items at hitem
    rw [hitems] at hitem
    split at hitem
    · exact (List.mem_append.mp hitem).imp_right List.mem_singleton.mp
    · exact Or.inl hitem
  obtain ⟨delivered, hincoming, haccounts⟩ := hsound.accounts
  refine ⟨hsound.levels, tuned_inRsItem hsound.tuned data priority, ?_, fun k item hitem => ?_, ?_,
    fun k item hitem hpos => ?_, fun k => ?_, fun k k' hne id hid hid' => ?_,
    delivered, hincoming, fun level => ?_⟩
  · change s.sender.nbItems + 1 = _
    rw [hsound.count]
    exact (sum_inRsItem hsound.levels (by decide) data priority).symm
  · rcases hmem k item hitem with hold | rfl
    · exact hsound.packets k item hold
    · exact ⟨hpacket, lt_of_lt_of_le (Nat.zero_lt_succ 7) hpacket.header, hsound.idCounter⟩
  · change (if maxPacketCounterValue ≤ s.sender.idCounter + 1 then 0 else s.sender.idCounter + 1) < _
    unfold maxPacketCounterValue
    split <;> omega
  · rcases hmem k item hitem with hold | rfl
    · exact hsound.started k item hold hpos
    · exact absurd hpos (Nat.lt_irrefl 0)
  · unfold ids queueing
    rw [hitems]
    split
    · rw [List.map_append, List.map_singleton]
      exact List.nodup_append_comm.mp (List.nodup_cons.mpr ⟨hfresh k, hsound.nodup k⟩)
    · exact hsound.nodup k
  · rcases mem_ids_queueing.mp hid with hold | ⟨rfl, rfl⟩
    · rcases mem_ids_queueing.mp hid' with hold' | ⟨rfl, rfl⟩
      · exact hsound.apart k k' hne id hold hold'
      · exact hfresh k hold
    · rcases mem_ids_queueing.mp hid' with hold' | ⟨rfl, _⟩
      · exact hfresh k' hold'
      · exact hne rfl
  · change ((s.queued ++ [(s.sender.level priority, data)]).filter _).map _ =
      _ ++ ((s.sender.inRsItem data priority).itemQueues level).items.map _
    rw [hitems, List.filter_append, List.map_append, haccounts level, List.append_assoc]
    split
    · next heq =>
        rw [List.map_append]
        simp [heq]
    · next hne => simp [Ne.symm hne]

theorem step_send_idle (hidle : s.sender.nbItems = 0) : s.step (.send rest) = some s := by
  have hcall : ∀ maxSize out, s.sender.outRsItem maxSize out = (none, out, s.sender) := by
    intro maxSize out
    unfold outRsItem
    rw [if_pos hidle]
  unfold step popOutData
  simp only [hcall]

theorem step_send_block {bytes : List UInt8} {sender : PqiQoS} {reader : Streamer Unit (List UInt8)}
    (hpop : s.sender.popOutData s.acceptsPacketSlicing = (.block bytes, sender))
    (hreceive : receiveBlock s.reader rest bytes = some reader) :
    s.step (.send rest) = some { s with sender := sender, reader := reader } := by
  unfold step
  simp only [hpop, hreceive, Option.bind_eq_bind, Option.bind_some, Option.pure_def]

theorem exists_busy (hsound : s.Sound) (hsome : s.sender.nbItems ≠ 0) :
    ∃ k < 10, (s.sender.itemQueues k).items ≠ [] := by
  by_contra hnone
  push Not at hnone
  refine hsome (hsound.count.trans (Finset.sum_eq_zero fun k hk => ?_))
  rw [hnone k (Finset.mem_range.mp hk), List.length_nil]

/-- **One pass of the sender.** -/
theorem Sound.send (hsound : s.Sound) (hlawful : (Op.send rest).Lawful s) :
    ∃ s', s.step (.send rest) = some s' ∧ s'.Sound ∧
      (s.sender.nbItems ≠ 0 → pending s'.sender < pending s.sender) := by
  by_cases hsome : s.sender.nbItems = 0
  · exact ⟨s, step_send_idle hsome, hsound, fun hne => absurd hsome hne⟩
  obtain ⟨hpos, hdesired⟩ := desired_pos s.acceptsPacketSlicing
  obtain ⟨last, item, others, queues, inc, hlast, hcons, hcall, hitems, htuned, _, _, _⟩ :=
    out_spec ⟨0, true, true, 0⟩ hsound.levels hsound.tuned le_rfl (exists_busy hsound hsome)
      (fun k _ => hsound.waits k) hsome hpos (by omega)
  have hmem : item ∈ (s.sender.itemQueues last).items := hcons ▸ List.mem_cons_self
  obtain ⟨hpacket, hoffset, hid⟩ := hsound.packets last item hmem
  obtain ⟨bytes, reader, hpop, hreceive, hincoming, hothers, hpartial⟩ :=
    send_slice (r := s.reader) rest hpacket hid (hsound.started last item hmem)
      (fun hno => hlawful hno last item hmem) hcall
  generalize desired s.acceptsPacketSlicing = maxSize at *
  -- the packets that wait after the call
  have hkept : ∀ k, ∀ item' ∈ (queues k).items,
      (item' ∈ (s.sender.itemQueues k).items ∧ item'.id ≠ item.id) ∨
        (k = last ∧ item' = item.advance maxSize ∧ item.last maxSize = false) := by
    intro k item' hitem'
    rw [hitems] at hitem'
    split at hitem'
    · next heq =>
        subst heq
        rcases mem_remaining hitem' with hrest | hfirst
        · have hnodup := hsound.nodup k
          unfold ids at hnodup
          rw [hcons, List.map_cons, List.nodup_cons] at hnodup
          refine Or.inl ⟨hcons ▸ List.mem_cons_of_mem _ hrest, fun heq => ?_⟩
          exact hnodup.1 (heq ▸ List.mem_map_of_mem hrest)
        · exact Or.inr ⟨rfl, hfirst⟩
    · next hne =>
        refine Or.inl ⟨hitem', fun heq => ?_⟩
        exact hsound.apart k last hne item'.id (List.mem_map_of_mem hitem')
          (heq ▸ List.mem_map_of_mem hmem)
  have hids : ∀ k, ((queues k).items.map ItemRecord.id).Sublist (s.ids k) := by
    intro k
    rw [hitems]
    split
    · next heq =>
        unfold ids
        rw [heq, hcons]
        exact ids_remaining_sublist maxSize item others
    · exact List.Sublist.refl _
  have hsum := sum_remaining hlast hcons hitems
  have hcount := hsound.count
  obtain ⟨delivered, hdelivered, haccounts⟩ := hsound.accounts
  refine ⟨_, step_send_block hpop hreceive, ⟨hsound.levels, htuned, ?_, fun k item' hitem' => ?_,
    hsound.idCounter, fun k item' hitem' hstarted => ?_, fun k => (hsound.nodup k).sublist (hids k),
    fun k k' hne id hmem hmem' => hsound.apart k k' hne id ((hids k).subset hmem)
      ((hids k').subset hmem'),
    delivered ++ (if item.last maxSize then [(last, item.data)] else []), ?_, fun level => ?_⟩,
    fun _ => ?_⟩
  · dsimp only
    rw [← hsum] at hcount
    split
    · next hends =>
        rw [if_pos hends] at hcount
        omega
    · next hends =>
        rw [if_neg hends] at hcount
        exact hcount
  · rcases hkept k item' hitem' with ⟨hold, _⟩ | ⟨_, rfl, hmore⟩
    · exact hsound.packets k item' hold
    · exact ⟨hpacket, Nat.not_le.mp (of_decide_eq_false hmore), hid⟩
  · rcases hkept k item' hitem' with ⟨hold, hne⟩ | ⟨_, rfl, hmore⟩
    · obtain ⟨haccepts, hrecord⟩ := hsound.started k item' hold hstarted
      exact ⟨haccepts, (hothers _ hne).trans hrecord⟩
    · exact hpartial hmore
  · rw [hincoming, hdelivered, List.map_append]
    split <;> rfl
  · dsimp only
    rw [haccounts, hitems, List.filter_append, List.map_append, List.append_assoc]
    by_cases hlevel : level = last
    · subst hlevel
      rw [if_pos rfl, hcons, remaining]
      split
      · simp
      · simp [ItemRecord.advance]
    · rw [if_neg hlevel]
      split
      · simp [Ne.symm hlevel]
      · rfl
  · refine Finset.sum_lt_sum (fun k _ => ?_) ⟨last, ?_, ?_⟩
    · dsimp only
      rw [hitems]
      split
      · next heq =>
          rw [heq, hcons]
          exact (left_remaining_lt hpos hoffset).le
      · exact le_rfl
    · rw [hsound.levels]
      exact Finset.mem_range.mpr hlast
    · dsimp only
      rw [hitems, if_pos rfl, hcons]
      exact left_remaining_lt hpos hoffset

theorem Sound.accept (hsound : s.Sound) : Sound { s with acceptsPacketSlicing := true } :=
  { hsound with
    started := fun k item hitem hpos => ⟨rfl, (hsound.started k item hitem hpos).2⟩
    accounts := hsound.accounts }

/-- Every lawful step has an outcome. -/
theorem Sound.step (hsound : s.Sound) (hlawful : op.Lawful s) :
    ∃ s', s.step op = some s' ∧ s'.Sound := by
  cases op with
  | queue data priority => exact ⟨_, rfl, hsound.queue hlawful⟩
  | accept => exact ⟨_, rfl, hsound.accept⟩
  | send rest =>
      obtain ⟨s', hstep, hsound', _⟩ := hsound.send hlawful
      exact ⟨s', hstep, hsound'⟩

theorem sound_of_reaches (hreach : Reaches Connection.step (fun s op => op.Lawful s) start s) :
    s.Sound := by
  refine hreach.invariant Sound (fun before op after hsound hlawful hstep => ?_) sound_start
  obtain ⟨after', hstep', hsound'⟩ := hsound.step hlawful
  cases hstep.symm.trans hstep'
  exact hsound'

/-- With nothing pending no packet waits. -/
theorem Sound.items_eq_nil (hsound : s.Sound) (hnone : pending s.sender = 0) {level : Nat}
    (hlevel : level < 10) : (s.sender.itemQueues level).items = [] := by
  rw [List.eq_nil_iff_forall_not_mem]
  intro item hitem
  rw [pending, hsound.levels] at hnone
  have hsum := Finset.sum_eq_zero_iff.mp hnone level (Finset.mem_range.mpr hlevel)
  have hleft : item.left = 0 := List.sum_eq_zero_iff.mp hsum _ (List.mem_map_of_mem hitem)
  have hoffset := (hsound.packets level item hitem).2.1
  unfold ItemRecord.left at hleft
  omega

theorem Sound.nbItems_ne_zero (hsound : s.Sound) (hpending : 0 < pending s.sender) :
    s.sender.nbItems ≠ 0 := by
  intro hnone
  have hempty : ∀ k ∈ Finset.range 10, (s.sender.itemQueues k).items.length = 0 :=
    Finset.sum_eq_zero_iff.mp (hsound.count.symm.trans hnone)
  rw [pending, hsound.levels, Finset.sum_eq_zero fun k hk => ?_] at hpending
  · exact Nat.lt_irrefl 0 hpending
  · rw [List.length_eq_zero_iff.mp (hempty k hk), List.map_nil, List.sum_nil]

end Connection

end RetroShare.PqiQoS
