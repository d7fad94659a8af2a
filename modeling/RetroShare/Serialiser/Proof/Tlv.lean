import RetroShare.Serialiser.Tlv

/-!
# Round trip of records and their containers

A container is read back from where it was written, with what the readers drop on purpose: empty
strings are not written, and a suspicious string comes back as a warning.
-/

namespace RetroShare.Serialiser

open Bytes

/-- An element is written where there is room for it, and read back from there. -/
def TlvItem.RoundTrips {E : Type} (item : TlvItem E) (e : E) : Prop :=
  ∀ (data : Memory) (offset size : Nat), offset + item.tlvSize e ≤ size → size < 2 ^ 32 →
    ∃ data', item.setTlv size e ⟨data, offset⟩ = (true, ⟨data', offset + item.tlvSize e⟩) ∧
      KeepsOutside data data' offset (offset + item.tlvSize e) ∧
      ∀ (mem : Memory) (size' : Nat) (reads : List (Nat × Nat)),
        Agree mem data' offset (offset + item.tlvSize e) → offset + item.tlvSize e ≤ size' →
        size' < 2 ^ 32 →
          ∃ reads', item.getTlv ⟨mem, size'⟩ ⟨offset, reads⟩ =
            (some e, ⟨offset + item.tlvSize e, reads'⟩)

/-- A container of `length` bytes is written where there is room for it, and whatever object reads
from there holds `value` then and has stepped over the `tlvSize` bytes. -/
def ReadsBack {C : Type} (length tlvSize : Nat) (setTlv : Nat → Writer → Bool × Writer)
    (getTlv : Nat → Packet → C → Reader → Option (Bool × C × Reader)) (turns : Nat) (value : C) :
    Prop :=
  ∀ (data : Memory) (offset size : Nat), offset + length ≤ size → size < 2 ^ 32 →
    offset + length + tlvHeaderSize < 2 ^ 32 →
      ∃ data', setTlv size ⟨data, offset⟩ = (true, ⟨data', offset + tlvSize⟩) ∧
        KeepsOutside data data' offset (offset + tlvSize) ∧
        ∀ (mem : Memory) (size' : Nat) (before : C) (reads : List (Nat × Nat)) (passes : Nat),
          Agree mem data' offset (offset + tlvSize) → offset + tlvSize ≤ size' → size' < 2 ^ 32 →
          turns < passes →
            ∃ reads', getTlv passes ⟨mem, size'⟩ before ⟨offset, reads⟩ =
              some (true, value, ⟨offset + tlvSize, reads'⟩)

/-! ### Headers -/

def tlvHeader (type len : Nat) : List UInt8 := bigEndian 2 type ++ bigEndian 4 len

@[simp]
theorem length_tlvHeader (type len : Nat) : (tlvHeader type len).length = tlvHeaderSize := by
  simp [tlvHeader, tlvHeaderSize]

section Header

variable {mem : Memory} {size offset type len : Nat} {reads : List (Nat × Nat)}

theorem setTlvBase_of_room (data : Memory) (hroom : offset + tlvHeaderSize ≤ size)
    (hsize : size < 2 ^ 32) : setTlvBase size type len ⟨data, offset⟩ =
      (true, ⟨blit data offset (tlvHeader type len), offset + tlvHeaderSize⟩) := by
  have hadd : Word.add 32 offset tlvHeaderSize = offset + tlvHeaderSize :=
    Word.add_of_lt (lt_of_le_of_lt hroom hsize)
  have hlength := length_tlvHeader type len
  unfold setTlvBase Writer.put
  rw [tlvHeader] at hlength
  simp only [hadd, hlength, Nat.not_lt.mpr hroom, ↓reduceIte]
  rfl

theorem getTlvType_of_holds (hheader : Holds mem offset (tlvHeader type len)) (htype : type < 2 ^ 16) :
    getTlvType ⟨mem, size⟩ ⟨offset, reads⟩ = (type, ⟨offset, (offset, 2) :: reads⟩) := by
  have hslice := (holds_append_iff.mp hheader).1
  unfold Holds at hslice
  rw [length_bigEndian] at hslice
  unfold getTlvType Reader.peek
  rw [hslice, ofBigEndian_bigEndian, Nat.mod_eq_of_lt (show type < 256 ^ 2 from htype)]

theorem getTlvSize_of_holds (hheader : Holds mem offset (tlvHeader type len)) (hlen : len < 2 ^ 32) :
    getTlvSize ⟨mem, size⟩ ⟨offset, reads⟩ = (len, ⟨offset, (offset + 2, 4) :: reads⟩) := by
  have hslice := (holds_append_iff.mp hheader).2
  unfold Holds at hslice
  rw [length_bigEndian, length_bigEndian] at hslice
  unfold getTlvSize Reader.peek
  rw [hslice, ofBigEndian_bigEndian, Nat.mod_eq_of_lt (show len < 256 ^ 4 from hlen)]

end Header

/-! ### Lists of records -/

namespace TlvList

variable {E : Type} {item : TlvItem E} {elems : List E}

def elemsLength (item : TlvItem E) (elems : List E) : Nat := (elems.map item.tlvSize).sum

theorem elemsLength_cons (e : E) (rest : List E) :
    elemsLength item (e :: rest) = item.tlvSize e + elemsLength item rest := by
  rw [elemsLength, elemsLength, List.map_cons, List.sum_cons]

theorem tlvSize_eq (hfits : tlvHeaderSize + elemsLength item elems < 2 ^ 32) :
    tlvSize item elems = tlvHeaderSize + elemsLength item elems := by
  have hfold : ∀ (rest : List E) (size : Nat), size + elemsLength item rest < 2 ^ 32 →
      rest.foldl (fun size e => Word.add 32 size (item.tlvSize e)) size =
        size + elemsLength item rest := by
    intro rest
    induction rest with
    | nil => exact fun _ _ => rfl
    | cons e rest ih =>
        intro size hsize
        rw [elemsLength_cons] at hsize ⊢
        rw [List.foldl_cons, Word.add_of_lt (by omega), ih _ (by omega), Nat.add_assoc]
  exact hfold elems tlvHeaderSize hfits

/-- The last element is longer than a header. -/
def EndsLong (item : TlvItem E) (elems : List E) : Prop :=
  ∀ e, elems.getLast? = some e → tlvHeaderSize < item.tlvSize e

theorem EndsLong.tail {e : E} {rest : List E} (hlong : EndsLong item (e :: rest)) :
    EndsLong item rest := by
  intro last hlast
  refine hlong last ?_
  rw [List.getLast?_cons, hlast, Option.getD_some]

theorem EndsLong.lt_elemsLength {e : E} {rest : List E} (hlong : EndsLong item (e :: rest)) :
    tlvHeaderSize < elemsLength item (e :: rest) := by
  induction rest generalizing e with
  | nil => exact hlong e rfl
  | cons e' rest ih =>
      rw [elemsLength_cons]
      exact Nat.lt_of_lt_of_le (ih hlong.tail) (Nat.le_add_left _ _)

/-- What the two loops do, by induction on the elements. -/
theorem getItems_setItems (hitems : ∀ e ∈ elems, item.RoundTrips e) (hlong : EndsLong item elems)
    (data : Memory) (offset tlvend : Nat) (hend : offset + elemsLength item elems = tlvend)
    (hroom : tlvend + tlvHeaderSize < 2 ^ 32) :
    ∃ data', setItems item tlvend elems true ⟨data, offset⟩ = (true, ⟨data', tlvend⟩) ∧
      KeepsOutside data data' offset tlvend ∧
      ∀ (mem : Memory) (done : List E) (reads : List (Nat × Nat)) (passes : Nat),
        Agree mem data' offset tlvend → elems.length < passes →
          ∃ reads', getItems item ⟨mem, tlvend⟩ passes done ⟨offset, reads⟩ =
            some (done ++ elems, ⟨tlvend, reads'⟩) := by
  have hheader : tlvHeaderSize = 6 := rfl
  have hhere : Word.add 32 offset 6 = offset + 6 := Word.add_of_lt (by omega)
  induction elems generalizing data offset with
  | nil =>
      obtain rfl : offset = tlvend := hend
      refine ⟨data, rfl, fun _ _ => rfl, fun mem done reads passes _ hpasses => ⟨reads, ?_⟩⟩
      cases passes with
      | zero => cases hpasses
      | succ passes =>
          rw [getItems, hhere, if_neg (Nat.not_lt.mpr (Nat.le_add_right offset 6)), List.append_nil]
  | cons e rest ih =>
      have hlt := hlong.lt_elemsLength
      rw [elemsLength_cons] at hend hlt
      obtain ⟨data₁, hset, hkept, hget⟩ :=
        hitems e List.mem_cons_self data offset tlvend (by omega) (by omega)
      obtain ⟨data₂, hset', hkept', hget'⟩ :=
        ih (fun e' hmem => hitems e' (List.mem_cons_of_mem e hmem)) hlong.tail data₁
          (offset + item.tlvSize e) (by omega) (Word.add_of_lt (by omega))
      refine ⟨data₂, ?_, hkept.trans hkept' (by omega) (by omega), ?_⟩
      · unfold setItems at hset' ⊢
        rw [List.foldl_cons]
        simp only [hset, Bool.and_self]
        exact hset'
      · intro mem done reads passes hagree hpasses
        cases passes with
        | zero => cases hpasses
        | succ passes =>
            obtain ⟨reads₁, hread⟩ := hget mem tlvend reads
              (fun i hstart hstop => (hagree i hstart (by omega)).trans (hkept' i (.inl hstop)))
              (by omega) (by omega)
            obtain ⟨reads₂, hread'⟩ := hget' mem (done ++ [e]) reads₁ passes
              (fun i hstart hstop => hagree i (by omega) hstop) (Nat.lt_of_succ_lt_succ hpasses)
            refine ⟨reads₂, ?_⟩
            have hgoes : offset + 6 < tlvend := by omega
            rw [getItems, hhere, if_pos hgoes, hread]
            rw [List.append_assoc] at hread'
            exact hread'

theorem readsBack {tlvType : Nat} (htype : tlvType < 2 ^ 16)
    (hitems : ∀ e ∈ elems, item.RoundTrips e) (hlong : EndsLong item elems) :
    ReadsBack (tlvHeaderSize + elemsLength item elems) (tlvSize item elems)
      (fun size => setTlv item tlvType size elems) (getTlv item tlvType) elems.length elems := by
  intro data offset size hroom hsize hend
  have hlength : tlvSize item elems = tlvHeaderSize + elemsLength item elems :=
    tlvSize_eq (by omega)
  have hadd : Word.add 32 offset (tlvSize item elems) = offset + tlvSize item elems :=
    Word.add_of_lt (by omega)
  have hskip : Word.add 32 offset tlvHeaderSize = offset + tlvHeaderSize :=
    Word.add_of_lt (by omega)
  have hbase : setTlvBase (offset + tlvSize item elems) tlvType (tlvSize item elems) ⟨data, offset⟩ =
      (true, ⟨blit data offset (tlvHeader tlvType (tlvSize item elems)), offset + tlvHeaderSize⟩) :=
    setTlvBase_of_room data (by omega) (by omega)
  obtain ⟨data', hset, hkept, hget⟩ := getItems_setItems hitems hlong
    (blit data offset (tlvHeader tlvType (tlvSize item elems))) (offset + tlvHeaderSize)
    (offset + tlvSize item elems) (by omega) (by omega)
  have hheader := keepsOutside_blit data offset (tlvHeader tlvType (tlvSize item elems))
  rw [length_tlvHeader] at hheader
  refine ⟨data', ?_, hheader.trans hkept (by omega) (by omega), ?_⟩
  · unfold setTlv
    simp only [hadd, hbase]
    rw [if_neg (by omega)]
    exact hset
  · intro mem size' before reads passes hagree hroom' hsize' hpasses
    have hholds : Holds mem offset (tlvHeader tlvType (tlvSize item elems)) := by
      refine (holds_blit data offset _).congr fun i hstart hstop => ?_
      rw [length_tlvHeader] at hstop
      exact (hagree i hstart (by omega)).trans (hkept i (.inl hstop))
    obtain ⟨reads', hread⟩ := hget mem [] ((offset + 2, 4) :: (offset, 2) :: reads) passes
      (fun i hstart hstop => hagree i (by omega) hstop) hpasses
    refine ⟨reads', ?_⟩
    unfold getTlv
    simp only [hskip, getTlvType_of_holds hholds htype,
      getTlvSize_of_holds hholds (show tlvSize item elems < 2 ^ 32 by omega), hadd]
    rw [if_neg (by omega), if_neg (by omega), if_neg (not_not.mpr rfl), hread]
    simp

end TlvList

/-! ### Strings -/

def tlvString (type : Nat) (str : List UInt8) : List UInt8 :=
  tlvHeader type (tlvHeaderSize + str.length) ++ str

@[simp]
theorem length_tlvString (type : Nat) (str : List UInt8) :
    (tlvString type str).length = tlvHeaderSize + str.length := by
  rw [tlvString, List.length_append, length_tlvHeader]

theorem setTlvString_of_room {size type offset : Nat} {out : List UInt8} (data : Memory)
    (hroom : offset + (tlvString type out).length ≤ size) (hsize : size < 2 ^ 32) :
    setTlvString size type out ⟨data, offset⟩ =
      (true, ⟨blit data offset (tlvString type out), offset + (tlvString type out).length⟩) := by
  rw [length_tlvString] at hroom ⊢
  have hlength : getTlvStringSize out = tlvHeaderSize + out.length := Word.wrap_of_lt (by omega)
  have hadd : Word.add 32 offset (tlvHeaderSize + out.length) =
      offset + (tlvHeaderSize + out.length) := Word.add_of_lt (by omega)
  have hadd' : Word.add 32 (offset + tlvHeaderSize) out.length =
      offset + tlvHeaderSize + out.length := Word.add_of_lt (by omega)
  have hstrlen : Word.sub 32 (tlvHeaderSize + out.length) tlvHeaderSize = out.length := by
    rw [Word.sub_of_le (Nat.le_add_right _ _) (by omega), Nat.add_sub_cancel_left]
  have hbase : setTlvBase (offset + (tlvHeaderSize + out.length)) type (tlvHeaderSize + out.length)
      ⟨data, offset⟩ = (true, ⟨blit data offset (tlvHeader type (tlvHeaderSize + out.length)),
        offset + tlvHeaderSize⟩) := setTlvBase_of_room data (by omega) (by omega)
  have hblit := blit_append data offset (tlvHeader type (tlvHeaderSize + out.length)) out
  rw [length_tlvHeader] at hblit
  unfold setTlvString
  simp only [hlength, hadd, hbase, hstrlen, List.take_length, Writer.put, hadd', hblit]
  rw [if_neg (by omega), Nat.add_assoc]
  rfl

theorem getTlvString_of_holds {mem : Memory} {size type offset : Nat} {str : List UInt8}
    (reads : List (Nat × Nat)) (hholds : Holds mem offset (tlvString type str))
    (hroom : offset + (tlvString type str).length ≤ size) (hsize : size < 2 ^ 32)
    (htype : type < 2 ^ 16) :
    ∃ reads', getTlvString type ⟨mem, size⟩ ⟨offset, reads⟩ =
      (some (blankControls type (dropSuspicious str)),
        ⟨offset + (tlvString type str).length, reads'⟩) := by
  rw [length_tlvString] at hroom ⊢
  obtain ⟨hheader, hstr⟩ := holds_append_iff.mp hholds
  rw [length_tlvHeader] at hstr
  have hadd : Word.add 32 offset (tlvHeaderSize + str.length) =
      offset + (tlvHeaderSize + str.length) := Word.add_of_lt (by omega)
  have hstrlen : Word.sub 32 (tlvHeaderSize + str.length) tlvHeaderSize = str.length := by
    rw [Word.sub_of_le (Nat.le_add_right _ _) (by omega), Nat.add_sub_cancel_left]
  unfold Holds at hstr
  refine ⟨(offset + tlvHeaderSize, str.length) :: (offset + 2, 4) :: (offset, 2) :: reads, ?_⟩
  unfold getTlvString
  simp only [getTlvType_of_holds hheader htype,
    getTlvSize_of_holds hheader (show tlvHeaderSize + str.length < 2 ^ 32 by omega), hadd, hstrlen,
    hstr]
  rw [if_neg (by omega), if_neg (by omega), if_neg (not_not.mpr rfl)]

/-! ### Sets of strings -/

namespace TlvStringSet

/-- Empty strings leave no trace. -/
def idsBytes (ids : List (List UInt8)) : List UInt8 :=
  (ids.filter (·.length > 0)).flatMap (tlvString typeStrGenid)

theorem idsBytes_cons_of_empty {id : List UInt8} (rest : List (List UInt8))
    (hempty : ¬ id.length > 0) : idsBytes (id :: rest) = idsBytes rest := by
  rw [idsBytes, idsBytes, List.filter_cons_of_neg (by simpa using hempty)]

theorem idsBytes_cons_of_pos {id : List UInt8} (rest : List (List UInt8)) (hpos : id.length > 0) :
    idsBytes (id :: rest) = tlvString typeStrGenid id ++ idsBytes rest := by
  rw [idsBytes, idsBytes, List.filter_cons_of_pos (by simpa using hpos), List.flatMap_cons]

theorem tlvSize_eq {ids : List (List UInt8)}
    (hfits : tlvHeaderSize + (idsBytes ids).length < 2 ^ 32) :
    tlvSize ids = tlvHeaderSize + (idsBytes ids).length := by
  have hfold : ∀ (rest : List (List UInt8)) (s : Nat), s + (idsBytes rest).length < 2 ^ 32 →
      rest.foldl (fun s id => if id.length > 0 then Word.add 32 s (getTlvStringSize id) else s) s =
        s + (idsBytes rest).length := by
    intro rest
    induction rest with
    | nil => exact fun _ _ => rfl
    | cons id rest ih =>
        intro s hs
        rw [List.foldl_cons]
        by_cases hpos : id.length > 0
        · rw [idsBytes_cons_of_pos rest hpos, List.length_append, length_tlvString] at hs ⊢
          have hid : getTlvStringSize id = tlvHeaderSize + id.length := Word.wrap_of_lt (by omega)
          rw [if_pos hpos, hid, Word.add_of_lt (by omega), ih _ (by omega), Nat.add_assoc]
        · rw [idsBytes_cons_of_empty rest hpos] at hs ⊢
          rw [if_neg hpos, ih _ hs]
  exact hfold ids tlvHeaderSize hfits

theorem setIds_of_room {ids : List (List UInt8)} (data : Memory) {offset tlvend : Nat}
    (hroom : offset + (idsBytes ids).length ≤ tlvend) (hend : tlvend < 2 ^ 32) :
    setIds tlvend ids true ⟨data, offset⟩ =
      (true, ⟨blit data offset (idsBytes ids), offset + (idsBytes ids).length⟩) := by
  unfold setIds
  induction ids generalizing data offset with
  | nil => simp [idsBytes]
  | cons id rest ih =>
      rw [List.foldl_cons]
      by_cases hpos : id.length > 0
      · rw [idsBytes_cons_of_pos rest hpos] at hroom ⊢
        rw [List.length_append] at hroom ⊢
        have hset : setTlvString tlvend typeStrGenid id ⟨data, offset⟩ = _ :=
          setTlvString_of_room data (by omega) hend
        simp only [hpos, ↓reduceIte, hset, Bool.and_self]
        rw [ih _ (by omega), blit_append, Nat.add_assoc]
      · rw [idsBytes_cons_of_empty rest hpos] at hroom ⊢
        simp only [hpos, ↓reduceIte]
        exact ih data hroom

/-- What a set of strings comes back as. -/
def kept (ids : List (List UInt8)) : List (List UInt8) :=
  (ids.filter (·.length > 0)).map dropSuspicious

theorem getIds_of_holds {ids : List (List UInt8)} {mem : Memory} {offset tlvend passes : Nat}
    (done : List (List UInt8)) (reads : List (Nat × Nat)) (hholds : Holds mem offset (idsBytes ids))
    (hlength : offset + (idsBytes ids).length = tlvend) (hroom : tlvend + tlvHeaderSize < 2 ^ 32)
    (hpasses : ids.length < passes) :
    ∃ reads', getIds ⟨mem, tlvend⟩ passes done ⟨offset, reads⟩ =
      some (true, done ++ kept ids, ⟨tlvend, reads'⟩) := by
  have hheader : tlvHeaderSize = 6 := rfl
  have hhere : Word.add 32 offset 2 = offset + 2 := Word.add_of_lt (by omega)
  induction ids generalizing offset passes done reads with
  | nil =>
      obtain rfl : offset = tlvend := hlength
      obtain ⟨passes, rfl⟩ := Nat.exists_eq_succ_of_ne_zero (Nat.ne_of_gt hpasses)
      refine ⟨reads, ?_⟩
      rw [getIds, hhere, if_neg (Nat.not_lt.mpr (Nat.le_add_right offset 2))]
      simp [kept]
  | cons id rest ih =>
      obtain ⟨passes, rfl⟩ := Nat.exists_eq_succ_of_ne_zero (Nat.ne_of_gt (Nat.zero_lt_of_lt hpasses))
      by_cases hpos : id.length > 0
      · have hkept : kept (id :: rest) = dropSuspicious id :: kept rest := by
          rw [kept, kept, List.filter_cons_of_pos (by simpa using hpos), List.map_cons]
        rw [idsBytes_cons_of_pos rest hpos] at hholds hlength
        obtain ⟨hid, hrest⟩ := holds_append_iff.mp hholds
        have hid' := (holds_append_iff.mp hid).1
        rw [List.length_append] at hlength
        have hshort := length_tlvString typeStrGenid id
        obtain ⟨reads₁, hread⟩ := getTlvString_of_holds ((offset, 2) :: reads) hid
          (show offset + _ ≤ tlvend by omega) (by omega) (by decide)
        have hplain : blankControls typeStrGenid (dropSuspicious id) = dropSuspicious id :=
          if_neg (by decide)
        obtain ⟨reads₂, hread'⟩ := ih (done ++ [dropSuspicious id]) reads₁ hrest (by omega)
          (Nat.lt_of_succ_lt_succ hpasses) (Word.add_of_lt (by omega))
        refine ⟨reads₂, ?_⟩
        have hgoes : offset + 2 < tlvend := by omega
        rw [getIds, hhere, if_pos hgoes]
        simp only [getTlvType_of_holds hid' (by decide), ↓reduceIte, hread, hplain, hread', hkept,
          List.append_assoc, List.singleton_append]
      · have hkept : kept (id :: rest) = kept rest := by
          rw [kept, kept, List.filter_cons_of_neg (by simpa using hpos)]
        rw [idsBytes_cons_of_empty rest hpos] at hholds hlength
        rw [hkept]
        exact ih done reads hholds hlength (Nat.lt_of_succ_lt hpasses) hhere

theorem readsBack {mType : Nat} (htype : mType < 2 ^ 16) (ids : List (List UInt8)) :
    ReadsBack (tlvHeaderSize + (idsBytes ids).length) (tlvSize ids) (fun size => setTlv mType size ids)
      (getTlv mType) ids.length (kept ids) := by
  intro data offset size hroom hsize hend
  have hlength : tlvSize ids = tlvHeaderSize + (idsBytes ids).length := tlvSize_eq (by omega)
  have hadd : Word.add 32 offset (tlvSize ids) = offset + tlvSize ids := Word.add_of_lt (by omega)
  have hskip : Word.add 32 offset tlvHeaderSize = offset + tlvHeaderSize :=
    Word.add_of_lt (by omega)
  have hbase : setTlvBase (offset + tlvSize ids) mType (tlvSize ids) ⟨data, offset⟩ =
      (true, ⟨blit data offset (tlvHeader mType (tlvSize ids)), offset + tlvHeaderSize⟩) :=
    setTlvBase_of_room data (by omega) (by omega)
  have hset : setIds (offset + tlvSize ids) ids true
      ⟨blit data offset (tlvHeader mType (tlvSize ids)), offset + tlvHeaderSize⟩ = _ :=
    setIds_of_room _ (by omega) (by omega)
  have hblit := blit_append data offset (tlvHeader mType (tlvSize ids)) (idsBytes ids)
  rw [length_tlvHeader] at hblit
  have hbytes : (tlvHeader mType (tlvSize ids) ++ idsBytes ids).length = tlvSize ids := by
    rw [List.length_append, length_tlvHeader, hlength]
  refine ⟨blit data offset (tlvHeader mType (tlvSize ids) ++ idsBytes ids), ?_, ?_, ?_⟩
  · unfold setTlv
    simp only [hadd, hbase, hset, hblit]
    rw [if_neg (by omega), hlength, Nat.add_assoc]
  · exact hbytes ▸ keepsOutside_blit data offset (tlvHeader mType (tlvSize ids) ++ idsBytes ids)
  · intro mem size' before reads passes hagree hroom' hsize' hpasses
    have hholds : Holds mem offset (tlvHeader mType (tlvSize ids) ++ idsBytes ids) := by
      refine (holds_blit data offset _).congr ?_
      rwa [hbytes]
    obtain ⟨hheader, hids⟩ := holds_append_iff.mp hholds
    rw [length_tlvHeader] at hids
    obtain ⟨reads', hread⟩ := getIds_of_holds [] ((offset + 2, 4) :: (offset, 2) :: reads) hids
      (show _ = offset + tlvSize ids by omega) (by omega) hpasses
    refine ⟨reads', ?_⟩
    unfold getTlv
    simp only [hskip, getTlvType_of_holds hheader htype,
      getTlvSize_of_holds hheader (show tlvSize ids < 2 ^ 32 by omega), hadd]
    rw [if_neg (by omega), if_neg (by omega), if_neg (not_not.mpr rfl), hread]
    rfl

end TlvStringSet

/-! ### Both containers -/

/-- **Containers are read back.** A list comes back as it was, when its last element is longer than a
header; a set of strings comes back without the empty ones and with warnings for suspicious ones. -/
theorem tlvContainers_readBack :
    (∀ {E : Type} (item : TlvItem E) (tlvType : Nat) (elems : List E), tlvType < 2 ^ 16 →
      (∀ e ∈ elems, item.RoundTrips e) → TlvList.EndsLong item elems →
        ReadsBack (tlvHeaderSize + TlvList.elemsLength item elems) (TlvList.tlvSize item elems)
          (fun size => TlvList.setTlv item tlvType size elems) (TlvList.getTlv item tlvType)
          elems.length elems) ∧
    ∀ (mType : Nat) (ids : List (List UInt8)), mType < 2 ^ 16 →
      ReadsBack (tlvHeaderSize + (TlvStringSet.idsBytes ids).length) (TlvStringSet.tlvSize ids)
        (fun size => TlvStringSet.setTlv mType size ids) (TlvStringSet.getTlv mType) ids.length
        (TlvStringSet.kept ids) :=
  ⟨fun _ _ _ htype hitems hlong => TlvList.readsBack htype hitems hlong,
    fun _ ids htype => TlvStringSet.readsBack htype ids⟩

/-- Strings of one type, as records. -/
def stringItem (type : Nat) : TlvItem (List UInt8) where
  tlvSize := getTlvStringSize
  setTlv size := setTlvString size type
  getTlv := getTlvString type

theorem stringItem_roundTrips {type : Nat} {str : List UInt8} (htype : type < 2 ^ 16)
    (hlength : tlvHeaderSize + str.length < 2 ^ 32) (hharmless : dropSuspicious str = str)
    (hplain : blankControls type str = str) : (stringItem type).RoundTrips str := by
  have hsize : (stringItem type).tlvSize str = (tlvString type str).length :=
    (Word.wrap_of_lt hlength).trans (length_tlvString type str).symm
  intro data offset size hroom hlt
  rw [hsize] at hroom ⊢
  refine ⟨_, setTlvString_of_room data hroom hlt, keepsOutside_blit data offset _, ?_⟩
  intro mem size' reads hagree hroom' hlt'
  have hread := getTlvString_of_holds reads ((holds_blit data offset _).congr hagree) hroom' hlt' htype
  rwa [hharmless, hplain] at hread

theorem tlvContainers_readBack_strings :
    ReadsBack (tlvHeaderSize + TlvList.elemsLength (stringItem 1) [[97], [98, 99]])
      (TlvList.tlvSize (stringItem 1) [[97], [98, 99]])
      (fun size => TlvList.setTlv (stringItem 1) 2 size [[97], [98, 99]])
      (TlvList.getTlv (stringItem 1) 2) 2 [[97], [98, 99]] := by
  refine tlvContainers_readBack.1 (stringItem 1) 2 [[97], [98, 99]] (by decide) ?_ ?_
  · intro str hmem
    obtain rfl | rfl := List.mem_pair.mp hmem
    all_goals exact stringItem_roundTrips (by decide) (by decide) (by decide) (by decide)
  · intro last hlast
    cases hlast
    decide

theorem ReadsBack.unique {C : Type} {length tlvSize turns : Nat}
    {setTlv : Nat → Writer → Bool × Writer}
    {getTlv : Nat → Packet → C → Reader → Option (Bool × C × Reader)} {value value' : C}
    (hvalue : ReadsBack length tlvSize setTlv getTlv turns value)
    (hvalue' : ReadsBack length tlvSize setTlv getTlv turns value')
    (hlength : length + tlvHeaderSize < 2 ^ 32) (hsize : tlvSize ≤ length) : value = value' := by
  obtain ⟨data, hset, -, hget⟩ := hvalue (fun _ => 0) 0 length (by omega) (by omega) (by omega)
  obtain ⟨data', hset', -, hget'⟩ := hvalue' (fun _ => 0) 0 length (by omega) (by omega) (by omega)
  cases hset.symm.trans hset'
  obtain ⟨reads, hread⟩ := hget data length value [] (turns + 1) (fun _ _ _ => rfl) (by omega)
    (by omega) (Nat.lt_succ_self turns)
  obtain ⟨reads', hread'⟩ := hget' data length value [] (turns + 1) (fun _ _ _ => rfl) (by omega)
    (by omega) (Nat.lt_succ_self turns)
  cases hread.symm.trans hread'
  rfl

/-- A list that ends with a bare header, a set with an empty string, a set with a suspicious one. -/
theorem tlvContainers_counterexample :
    (¬ ∀ {E : Type} (item : TlvItem E) (tlvType : Nat) (elems : List E), tlvType < 2 ^ 16 →
      (∀ e ∈ elems, item.RoundTrips e) →
        ReadsBack (tlvHeaderSize + TlvList.elemsLength item elems) (TlvList.tlvSize item elems)
          (fun size => TlvList.setTlv item tlvType size elems) (TlvList.getTlv item tlvType)
          elems.length elems) ∧
    (¬ ∀ (mType : Nat) (ids : List (List UInt8)), mType < 2 ^ 16 →
      (∀ id ∈ ids, dropSuspicious id = id) →
        ReadsBack (tlvHeaderSize + (TlvStringSet.idsBytes ids).length) (TlvStringSet.tlvSize ids)
          (fun size => TlvStringSet.setTlv mType size ids) (TlvStringSet.getTlv mType) ids.length
          ids) ∧
    ¬ ∀ (mType : Nat) (ids : List (List UInt8)), mType < 2 ^ 16 → (∀ id ∈ ids, id ≠ []) →
        ReadsBack (tlvHeaderSize + (TlvStringSet.idsBytes ids).length) (TlvStringSet.tlvSize ids)
          (fun size => TlvStringSet.setTlv mType size ids) (TlvStringSet.getTlv mType) ids.length
          ids := by
  refine ⟨fun hclaim => ?_, fun hclaim => ?_, fun hclaim => ?_⟩
  · have hread := hclaim (stringItem 1) 2 [[]] (by decide) fun str hmem => by
      cases List.mem_singleton.mp hmem
      exact stringItem_roundTrips (by decide) (by decide) (by decide) (by decide)
    obtain ⟨data, hset, -, hget⟩ := hread (fun _ => 0) 0 12 (by decide) (by decide) (by decide)
    have hdata : (TlvList.setTlv (stringItem 1) 2 12 [[]] ⟨fun _ => 0, 0⟩).2.data = data :=
      congrArg (·.2.data) hset
    obtain ⟨reads, hresult⟩ := hget data 12 [] [] 2 (fun _ _ _ => rfl) (by decide) (by decide)
      (by decide)
    have hfails : (TlvList.getTlv (stringItem 1) 2 2 ⟨data, 12⟩ [] ⟨0, []⟩).map (·.1) =
        some false := by
      rw [← hdata]
      decide
    rw [hresult] at hfails
    cases hfails
  · have hread := hclaim 1 [[]] (by decide) fun str hmem => by
      cases List.mem_singleton.mp hmem
      decide
    cases (TlvStringSet.readsBack (by decide) [[]]).unique hread (by decide) (by decide)
  · have hread := hclaim 1 [[60, 33, 101]] (by decide) fun str hmem => by
      cases List.mem_singleton.mp hmem
      decide
    have hkept := (TlvStringSet.readsBack (by decide) [[60, 33, 101]]).unique hread (by decide)
      (by decide)
    exact absurd hkept (by decide)

end RetroShare.Serialiser
