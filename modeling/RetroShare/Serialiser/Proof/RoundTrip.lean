import RetroShare.Serialiser.GenericSerializer
import RetroShare.Serialiser.Proof.Encoding

/-!
# The round trip

`DESERIALIZE` reads back what stands in the packet as an encoding, and the item functions put the
header in front of it.
-/

namespace RetroShare.Serialiser

open Bytes

/-- Where these bytes stand in the packet, the job reads exactly them and gives this value. -/
def Reads {α : Type} (packet : Packet) (job : ReadContext → α × ReadContext) (bytes : List UInt8)
    (value : α) : Prop :=
  ∀ reader : Reader, Holds packet.data reader.offset bytes →
    reader.offset + bytes.length ≤ packet.size →
      ∃ reads, job ⟨reader, true⟩ = (value, ⟨⟨reader.offset + bytes.length, reads⟩, true⟩)

section Reading

variable {packet : Packet} (hsize : packet.size < 2 ^ 32)

theorem Reads.map {α β : Type} {job : ReadContext → α × ReadContext} {bytes : List UInt8}
    {value : α} (f : α → β) (hjob : Reads packet job bytes value) :
    Reads packet (fun ctx => (f (job ctx).1, (job ctx).2)) bytes (f value) := by
  intro reader hholds hroom
  obtain ⟨reads, hread⟩ := hjob reader hholds hroom
  refine ⟨reads, ?_⟩
  beta_reduce
  rw [hread]

theorem Reads.pair {α β : Type} {first : ReadContext → α × ReadContext}
    {second : ReadContext → β × ReadContext} {left right : List UInt8} {a : α} {b : β}
    (hfirst : Reads packet first left a) (hsecond : Reads packet second right b) :
    Reads packet
      (fun ctx => (((first ctx).1, (second (first ctx).2).1), (second (first ctx).2).2))
      (left ++ right) (a, b) := by
  intro reader hholds hroom
  rw [holds_append_iff] at hholds
  rw [List.length_append] at hroom
  obtain ⟨reads, hleft⟩ := hfirst reader hholds.1 (by omega)
  have hroom' : reader.offset + left.length + right.length ≤ packet.size := by omega
  obtain ⟨reads', hright⟩ := hsecond ⟨reader.offset + left.length, reads⟩ hholds.2 hroom'
  refine ⟨reads', ?_⟩
  beta_reduce
  rw [hleft, hright, List.length_append, Nat.add_assoc]

theorem Reads.many {α : Type} {body : ReadContext → α × ReadContext} {encode : α → List UInt8}
    (hbody : ∀ value, Reads packet body (encode value) value) (values : List α) :
    Reads packet (readMany body values.length) (values.flatMap encode) values := by
  induction values with
  | nil =>
      intro reader _ _
      exact ⟨reader.reads, rfl⟩
  | cons value values ih => exact ((hbody value).pair ih).map fun read => read.1 :: read.2

include hsize in
theorem take_of_room (reader : Reader) {bytes : List UInt8}
    (hholds : Holds packet.data reader.offset bytes)
    (hroom : reader.offset + bytes.length ≤ packet.size) :
    reader.take packet bytes.length =
      (bytes, ⟨reader.offset + bytes.length,
        (reader.offset, bytes.length) :: reader.reads⟩) := by
  have hslice : slice packet.data reader.offset bytes.length = bytes := hholds
  rw [Reader.take, hslice, Word.add_of_lt (by omega)]

include hsize in
theorem getRawUInt_of_room {width n : Nat} (reader : Reader)
    (hholds : Holds packet.data reader.offset (bigEndian width n))
    (hroom : reader.offset + width ≤ packet.size) (hn : n < 256 ^ width) :
    getRawUInt width packet reader =
      (some n, ⟨reader.offset + width, (reader.offset, width) :: reader.reads⟩) := by
  have hadd : Word.add 32 reader.offset width = reader.offset + width :=
    Word.add_of_lt (by omega)
  have htake := take_of_room hsize reader hholds (by rwa [length_bigEndian])
  rw [length_bigEndian] at htake
  rw [getRawUInt, hadd, if_neg (by omega), htake]
  change (some (ofBigEndian (bigEndian width n)), _) = _
  rw [ofBigEndian_bigEndian, Nat.mod_eq_of_lt hn]

include hsize in
theorem readUInt_of_room {width : Width} {member : width.Value} {reader : Reader}
    (hholds : Holds packet.data reader.offset (bigEndian width.bytes member.toNat))
    (hroom : reader.offset + width.bytes ≤ packet.size) :
    ReadContext.readUInt width packet ⟨reader, true⟩ =
      (member, ⟨⟨reader.offset + width.bytes, (reader.offset, width.bytes) :: reader.reads⟩,
        true⟩) := by
  have hn : member.toNat < 256 ^ width.bytes := by
    rw [← width.two_pow_bits]
    exact member.isLt
  rw [ReadContext.readUInt, ReadContext.process, if_pos rfl,
    getRawUInt_of_room hsize reader hholds hroom hn]
  simp

include hsize in
theorem reads_readUInt (width : Width) (member : width.Value) :
    Reads packet (fun ctx => ctx.readUInt width packet)
      (bigEndian width.bytes member.toNat) member := by
  intro reader hholds hroom
  rw [length_bigEndian] at hroom ⊢
  exact ⟨_, readUInt_of_room hsize hholds hroom⟩

include hsize in
theorem readCount_of_room {count : Nat} {reader : Reader}
    (hholds : Holds packet.data reader.offset (bigEndian 4 count))
    (hroom : reader.offset + 4 ≤ packet.size) (hcount : count < 2 ^ 32) :
    ReadContext.readCount packet ⟨reader, true⟩ =
        (BitVec.ofNat 32 count,
          ⟨⟨reader.offset + 4, (reader.offset, 4) :: reader.reads⟩, true⟩) ∧
      (BitVec.ofNat 32 count).toNat = count := by
  have htoNat : (BitVec.ofNat 32 count).toNat = count := by
    rw [BitVec.toNat_ofNat]
    exact Nat.mod_eq_of_lt hcount
  have hheld : Holds packet.data reader.offset
      (bigEndian Width.word32.bytes (BitVec.ofNat 32 count).toNat) := by
    rw [htoNat]
    exact hholds
  exact ⟨readUInt_of_room hsize hheld hroom, htoNat⟩

include hsize in
/-- A container: its count, then its elements. -/
theorem Reads.counted {α : Type} {body : ReadContext → α × ReadContext} {encode : α → List UInt8}
    (hpos : ∀ value, 0 < (encode value).length)
    (hbody : ∀ value, Reads packet body (encode value) value) (values : List α) :
    Reads packet (fun ctx =>
        readMany body (ctx.readCount packet).1.toNat (ctx.readCount packet).2)
      (bigEndian 4 values.length ++ values.flatMap encode) values := by
  intro reader hholds hroom
  have hholds' := holds_append_iff.mp hholds
  rw [length_bigEndian] at hholds'
  rw [List.length_append, length_bigEndian] at hroom ⊢
  have hcount := length_le_length_flatMap hpos values
  obtain ⟨hread, htoNat⟩ := readCount_of_room hsize hholds'.1 (by omega)
    (show values.length < 2 ^ 32 by omega)
  have hrest : reader.offset + 4 + (values.flatMap encode).length ≤ packet.size := by omega
  obtain ⟨reads, hmany⟩ := Reads.many hbody values
    ⟨reader.offset + 4, (reader.offset, 4) :: reader.reads⟩ hholds'.2 hrest
  refine ⟨reads, ?_⟩
  beta_reduce
  rw [hread]
  change readMany body (BitVec.ofNat 32 values.length).toNat _ = _
  rw [htoNat]
  exact hmany.trans (by rw [Nat.add_assoc])

include hsize in
theorem reads_getRawString (str : List UInt8) :
    Reads packet (fun ctx => ctx.process (getRawString packet) [])
      (bigEndian 4 str.length ++ str) str := by
  intro reader hholds hroom
  have hholds' := holds_append_iff.mp hholds
  rw [length_bigEndian] at hholds'
  rw [List.length_append, length_bigEndian] at hroom ⊢
  have hword := getRawUInt_of_room hsize reader hholds'.1 (by omega)
    (show str.length < 256 ^ 4 by omega)
  have hguard : ¬ (packet.size < str.length ∨ packet.size - str.length < reader.offset + 4) := by
    omega
  have htake := take_of_room hsize
    ⟨reader.offset + 4, (reader.offset, 4) :: reader.reads⟩ hholds'.2
    (show reader.offset + 4 + str.length ≤ packet.size by omega)
  refine ⟨(reader.offset + 4, str.length) :: (reader.offset, 4) :: reader.reads, ?_⟩
  change ReadContext.process _ _ _ = _
  rw [ReadContext.process, if_pos rfl, getRawString, getRawUInt32, hword]
  simp only
  rw [if_neg hguard, htake]
  change (str, _) = _
  rw [Nat.add_assoc]
  rfl

include hsize in
theorem reads_deserializeMemBlock (initialSize : Nat) (block : MemBlock) :
    Reads packet
      (fun ctx => ctx.process (deserializeMemBlock initialSize packet) ⟨[], Nat.zero_le _⟩)
      (bigEndian 4 block.1.length ++ block.1) block := by
  intro reader hholds hroom
  have hholds' := holds_append_iff.mp hholds
  rw [length_bigEndian] at hholds'
  rw [List.length_append, length_bigEndian] at hroom ⊢
  have hword := getRawUInt_of_room hsize reader hholds'.1 (by omega)
    (show block.1.length < 256 ^ 4 by omega)
  change ∃ reads, ReadContext.process _ _ _ = _
  rw [ReadContext.process, if_pos rfl, deserializeMemBlock, getRawUInt32, hword]
  simp only [Option.getD_some]
  by_cases hempty : block.1.length = 0
  · have hnil : block = ⟨[], Nat.zero_le _⟩ := Subtype.ext (List.eq_nil_of_length_eq_zero hempty)
    refine ⟨(reader.offset, 4) :: reader.reads, ?_⟩
    rw [if_pos hempty, hempty, hnil]
    rfl
  · have hmax : ¬ maxSerializedChunkSize < block.1.length := Nat.not_lt.mpr block.2
    have htake := take_of_room hsize
      ⟨reader.offset + 4, (reader.offset, 4) :: reader.reads⟩ hholds'.2
      (show reader.offset + 4 + block.1.length ≤ packet.size by omega)
    have hvalue : (⟨slice packet.data (reader.offset + 4) block.1.length,
        by rw [length_slice]; exact block.2⟩ : MemBlock) = block := Subtype.ext hholds'.2
    refine ⟨(reader.offset + 4, block.1.length) :: (reader.offset, 4) :: reader.reads, ?_⟩
    rw [if_neg hempty, dif_neg hmax, htake]
    simp only [Option.getD_some, Option.isSome_some, hvalue, Nat.add_assoc]

include hsize in
theorem reads_getId {width : Nat} (hwidth : 0 < width ∧ width < 2 ^ 32)
    (member : { bytes : List UInt8 // bytes.length = width }) :
    Reads packet
      (fun ctx => ctx.process (getId width packet) (Kind.id width hwidth).initial)
      member.1 member := by
  intro reader hholds hroom
  have hlength : member.1.length = width := member.2
  have hadd : Word.add 32 reader.offset width = reader.offset + width :=
    Word.add_of_lt (by omega)
  have htake := take_of_room hsize reader hholds hroom
  have hvalue : (⟨slice packet.data reader.offset width, length_slice _ _ _⟩ :
      { bytes : List UInt8 // bytes.length = width }) = member := by
    apply Subtype.ext
    calc
      slice packet.data reader.offset width =
          slice packet.data reader.offset member.1.length := by rw [hlength]
      _ = member.1 := hholds
  rw [hlength] at htake hroom ⊢
  refine ⟨(reader.offset, width) :: reader.reads, ?_⟩
  change ReadContext.process _ _ _ = _
  rw [ReadContext.process, if_pos rfl, getId, hadd, if_neg (by omega), htake, hvalue]
  rfl

theorem foldl_insert_sort {α : Type} [LinearOrder α] (members : Finset α) :
    (members.sort (· ≤ ·)).foldl (fun set value => insert value set) ∅ = members := by
  have hfold : ∀ (values : List α) (built : Finset α),
      values.foldl (fun set value => insert value set) built = values.toFinset ∪ built := by
    intro values
    induction values with
    | nil => simp
    | cons value values ih =>
        intro built
        rw [List.foldl_cons, ih, List.toFinset_cons, Finset.union_insert, Finset.insert_union]
  rw [hfold, Finset.sort_toFinset, Finset.union_empty]

include hsize in
/-- `DESERIALIZE` reads the encoding. -/
theorem Kind.reads_deserialize {α : Type} (kind : Kind α) (value : α) :
    Reads packet (kind.deserialize packet) (kind.encode value) value := by
  induction kind with
  | bool =>
      intro reader hholds hroom
      rw [encode, length_bigEndian] at hroom ⊢
      have hbyte := getRawUInt_of_room hsize reader hholds hroom
        (show value.toNat < 256 ^ 1 by cases value <;> decide)
      refine ⟨(reader.offset, 1) :: reader.reads, ?_⟩
      rw [deserialize, ReadContext.process, if_pos rfl, getRawUInt8, hbyte]
      cases value <;> rfl
  | uint width => exact reads_readUInt hsize width value
  | time =>
      intro reader hholds hroom
      rw [encode, length_bigEndian] at hroom ⊢
      have hword := getRawUInt_of_room hsize reader hholds hroom
        (show value.toUInt64.toNat < 256 ^ 8 from value.toUInt64.toNat_lt)
      have hvalue : Int64.ofNat value.toUInt64.toNat = value := by
        apply Int64.toBitVec_inj.mp
        simp [Int64.ofNat]
      refine ⟨(reader.offset, 8) :: reader.reads, ?_⟩
      rw [deserialize, ReadContext.process, if_pos rfl, getRawTimeT, getRawUInt64, hword]
      simp only [Option.map_some, hvalue]
      rfl
  | string => exact reads_getRawString hsize value
  | id width hwidth => exact reads_getId hsize hwidth value
  | flags32 =>
      intro reader hholds hroom
      rw [encode, length_bigEndian] at hroom ⊢
      have hword := getRawUInt_of_room hsize reader hholds hroom
        (show value.toNat < 256 ^ 4 from value.isLt)
      refine ⟨(reader.offset, 4) :: reader.reads, ?_⟩
      rw [deserialize, getRawUInt32, hword]
      simp
  | enum width => exact reads_readUInt hsize width value
  | memBlock initialSize => exact reads_deserializeMemBlock hsize initialSize value
  | vector kind ih =>
      intro reader hholds hroom
      obtain ⟨reads, hread⟩ :=
        Reads.counted hsize kind.length_encode_pos ih value.1 reader hholds hroom
      refine ⟨reads, ?_⟩
      rw [Prod.ext_iff] at hread ⊢
      exact ⟨Subtype.ext hread.1, hread.2⟩
  | list kind ih => exact Reads.counted hsize kind.length_encode_pos ih value
  | @set α order kind ih =>
      have hread := (Reads.counted hsize kind.length_encode_pos ih (value.sort (· ≤ ·))).map
        fun values => values.foldl (fun (set : Finset α) value => insert value set) ∅
      rw [foldl_insert_sort, Finset.length_sort] at hread
      exact hread
  | map key element ihKey ihElement =>
      have hread := (Reads.counted hsize (key.length_encode_entry_pos element)
        (fun entry => (ihKey entry.1).pair (ihElement entry.2)) value.toList).map
        fun entries =>
          entries.foldl (fun (map : OrderedMap _ _) entry => map.insert entry.1 entry.2) ∅
      rw [OrderedMap.foldl_insert_toList, Std.ExtTreeMap.length_toList] at hread
      exact hread
  | pair first second ihFirst ihSecond => exact (ihFirst value.1).pair (ihSecond value.2)

include hsize in
theorem Members.reads_deserialize {α : Type} (members : Members α) (fields : α) :
    Reads packet (members.deserialize packet) (members.encode fields) fields := by
  induction members with
  | nil =>
      intro reader _ _
      exact ⟨reader.reads, rfl⟩
  | cons kind rest ih => exact (kind.reads_deserialize hsize fields.1).pair (ih fields.2)

end Reading

/-! ### Items -/

/-- What `serialise` writes for an item. -/
def RsItem.encode (item : RsItem) : List UInt8 :=
  bigEndian 4 item.packetId.toNat ++
    (bigEndian 4 (8 + (item.cls.members.encode item.fields).length) ++
      item.cls.members.encode item.fields)

theorem RsItem.length_encode (item : RsItem) :
    item.encode.length = 8 + (item.cls.members.encode item.fields).length := by
  rw [encode, List.length_append, List.length_append, length_bigEndian, length_bigEndian]
  omega

theorem RsItem.size_eq (item : RsItem) (hsize : item.encode.length < 2 ^ 32) :
    item.size ⟨false⟩ = item.encode.length := by
  rw [length_encode] at hsize ⊢
  rw [size, Members.sizeEstimate_eq _ _ _ (by simp)]
  exact Word.add_of_lt hsize

theorem setRsItemHeader_eq (data : Memory) {size : Nat} (type pktsize : Nat) (hroom : 8 ≤ size) :
    setRsItemHeader data size type pktsize =
      (true, blit data 0 (bigEndian 4 type ++ bigEndian 4 pktsize)) := by
  have hsmall : 8 < 2 ^ 32 := by decide
  have htype := setRawUInt_of_room hsmall type data (show 0 + 4 ≤ 8 by decide)
  have hpktsize := setRawUInt_of_room hsmall pktsize (blit data 0 (bigEndian 4 type))
    (show 0 + 4 + 4 ≤ 8 by decide)
  have hblit := blit_append data 0 (bigEndian 4 type) (bigEndian 4 pktsize)
  rw [length_bigEndian] at hblit
  rw [setRsItemHeader, if_neg (by omega), setRawUInt32, htype]
  simp only
  rw [hpktsize, ← hblit]
  rfl

/-- `serialise` writes the encoding over the start of the buffer, and nothing else. -/
theorem RsItem.serialise_eq (item : RsItem) (data : Memory) {room : Nat}
    (hsize : item.encode.length < 2 ^ 32) (hroom : item.encode.length ≤ room) :
    item.serialise ⟨false⟩ data room =
      .ok (true, blit data 0 item.encode, item.encode.length) := by
  have hlength := item.length_encode
  have hheader := setRsItemHeader_eq data item.packetId.toNat item.encode.length
    (show 8 ≤ item.encode.length by omega)
  have hfields := item.cls.members.writes_serialize hsize item.fields
    (blit data 0 (bigEndian 4 item.packetId.toNat ++ bigEndian 4 item.encode.length)) 8 (by omega)
  have hblit := blit_append data 0
    (bigEndian 4 item.packetId.toNat ++ bigEndian 4 item.encode.length)
    (item.cls.members.encode item.fields)
  have hencode : bigEndian 4 item.packetId.toNat ++ bigEndian 4 item.encode.length ++
      item.cls.members.encode item.fields = item.encode := by
    rw [List.append_assoc, hlength]
    rfl
  rw [List.length_append, length_bigEndian, length_bigEndian, hencode] at hblit
  rw [serialise, item.size_eq hsize]
  simp only
  rw [if_neg (by omega), hheader]
  simp only [Bool.false_eq_true, if_false, Bool.not_true]
  rw [hfields, if_neg (by simp [hlength])]
  change Except.ok (true, blit _ (0 + (4 + 4)) _, 8 + _) = _
  rw [hblit, hlength]

theorem getRsItemId_of_holds {data : Memory} {type : Nat}
    (hholds : Holds data 0 (bigEndian 4 type)) (htype : type < 2 ^ 32) :
    getRsItemId data = (type, ⟨4, [(0, 4)]⟩) := by
  have hfour : (Packet.mk data 4).size < 2 ^ 32 := by change 4 < 2 ^ 32; decide
  have hword := getRawUInt_of_room hfour ⟨0, []⟩ hholds (Nat.le_refl 4) (show type < 256 ^ 4 from htype)
  rw [getRsItemId, getRawUInt32, hword]
  rfl

/-- `deserialise` on a packet that starts with an encoding gives its fields and takes exactly its
bytes. -/
theorem RsItem.deserialise_eq (item : RsItem) {createItem : Nat → Nat → Option ItemClass}
    (hcreate : createItem (getRsItemService item.packetId.toNat)
      (getRsItemSubType item.packetId.toNat) = some item.cls)
    {data : Memory} {size : Nat} (hholds : Holds data 0 item.encode)
    (hroom : item.encode.length ≤ size) (hsize : size < 2 ^ 32) :
    ∃ reads, deserialise createItem ⟨false⟩ data size =
      ⟨some ⟨item.cls, item.fields⟩, item.encode.length, reads⟩ := by
  have hlength := item.length_encode
  rw [encode, holds_append_iff, holds_append_iff, length_bigEndian, length_bigEndian] at hholds
  have hheader := getRsItemId_of_holds hholds.1 item.packetId.isLt
  obtain ⟨reads, hfields⟩ := item.cls.members.reads_deserialize
    (show (Packet.mk data size).size < 2 ^ 32 from hsize) item.fields ⟨8, [(0, 4)]⟩ hholds.2.2 (by change 8 + _ ≤ size; omega)
  refine ⟨reads, ?_⟩
  rw [deserialise, if_neg (by decide), hheader]
  simp only
  rw [hcreate]
  simp only
  rw [hfields]
  simp only
  rw [if_neg (by omega), if_pos trivial, hlength]

/-- **Round trip.** An item whose encoding is below `2 ^ 32` bytes and fits the buffer is written as
exactly `size` bytes; those bytes do not depend on what the buffer held, the rest of the buffer is
untouched, and deserialising them gives equal fields and takes all of them. -/
theorem serialise_deserialise (item : RsItem) (data : Memory) (room : Nat)
    (createItem : Nat → Nat → Option ItemClass)
    (hcreate : createItem (getRsItemService item.packetId.toNat)
      (getRsItemSubType item.packetId.toNat) = some item.cls)
    (hsize : item.encode.length < 2 ^ 32) (hroom : item.size ⟨false⟩ ≤ room) :
    ∃ written reads,
      item.serialise ⟨false⟩ data room = .ok (true, written, item.size ⟨false⟩) ∧
      item.size ⟨false⟩ = item.encode.length ∧
      slice written 0 (item.size ⟨false⟩) = item.encode ∧
      (∀ i, item.size ⟨false⟩ ≤ i → written i = data i) ∧
      deserialise createItem ⟨false⟩ written (item.size ⟨false⟩) =
        ⟨some ⟨item.cls, item.fields⟩, item.size ⟨false⟩, reads⟩ := by
  have heq := item.size_eq hsize
  rw [heq] at hroom ⊢
  have hholds := holds_blit data 0 item.encode
  obtain ⟨reads, hread⟩ := item.deserialise_eq hcreate hholds (Nat.le_refl _) hsize
  refine ⟨blit data 0 item.encode, reads, item.serialise_eq data hsize hroom, rfl, hholds, ?_, hread⟩
  intro i hi
  exact blit_of_outside data (by omega)

theorem serialise_deserialise_list_and_string :
    let item : RsItem :=
      { packetId := 0x02021301#32
        cls := ⟨_, .cons (.list (.uint .word16)) (.cons .string .nil)⟩
        fields := ([1#16, 515#16], [82, 83], ()) }
    ∃ written reads,
      item.serialise ⟨false⟩ (fun _ => 7) 64 = .ok (true, written, 22) ∧ 22 = item.encode.length ∧
      slice written 0 22 = item.encode ∧ (∀ i, 22 ≤ i → written i = 7) ∧
      deserialise (fun service subtype => if service = 0x0213 ∧ subtype = 1 then some item.cls
        else none) ⟨false⟩ written 22 = ⟨some ⟨item.cls, item.fields⟩, 22, reads⟩ :=
  serialise_deserialise _ (fun _ => 7) 64 _ rfl (by decide) (by decide)

end RetroShare.Serialiser
