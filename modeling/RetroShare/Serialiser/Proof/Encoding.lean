import RetroShare.Serialiser.TypeSerializer

/-!
# The wire format

`Kind.encode` is the byte sequence a value stands for. `SIZE_ESTIMATE` adds its length, `SERIALIZE`
writes it and `DESERIALIZE` reads it: each is stated as a property of one job that composes when jobs
are run one after the other, so the containers need no induction of their own beyond the one over
their elements.
-/

namespace RetroShare.Serialiser

open Bytes

def Kind.encode {α : Type} : Kind α → α → List UInt8
  | bool, member => bigEndian 1 member.toNat
  | uint width, member => bigEndian width.bytes member.toNat
  | time, member => bigEndian 8 member.toUInt64.toNat
  | string, str => bigEndian 4 str.length ++ str
  | id _ _, member => member.1
  | flags32, member => bigEndian 4 member.toNat
  | enum width, member => bigEndian width.bytes member.toNat
  | memBlock _, block => bigEndian 4 block.1.length ++ block.1
  | vector kind, values => bigEndian 4 values.1.length ++ values.1.flatMap kind.encode
  | list kind, values => bigEndian 4 values.length ++ values.flatMap kind.encode
  | set kind, values => bigEndian 4 values.card ++ (values.sort (· ≤ ·)).flatMap kind.encode
  | map key value, entries =>
      bigEndian 4 entries.size ++
        entries.toList.flatMap fun entry => key.encode entry.1 ++ value.encode entry.2
  | pair first second, values => first.encode values.1 ++ second.encode values.2

def Members.encode {α : Type} : Members α → α → List UInt8
  | nil, _ => []
  | cons kind rest, fields => kind.encode fields.1 ++ rest.encode fields.2

theorem Width.bytes_pos (width : Width) : 0 < width.bytes := by
  cases width <;> decide

theorem Width.two_pow_bits (width : Width) : 2 ^ (8 * width.bytes) = 256 ^ width.bytes := by
  cases width <;> decide

/-- No value has an empty encoding, so a container is never longer than its encoding. -/
theorem Kind.length_encode_pos {α : Type} (kind : Kind α) (value : α) :
    0 < (kind.encode value).length := by
  induction kind with
  | uint width => rw [encode, length_bigEndian]; exact width.bytes_pos
  | enum width => rw [encode, length_bigEndian]; exact width.bytes_pos
  | id width hwidth => rw [encode, value.2]; exact hwidth.1
  | pair first second ihFirst _ =>
      rw [encode, List.length_append]
      exact Nat.add_pos_left (ihFirst value.1) _
  | _ => simp [encode]

theorem Kind.length_encode_entry_pos {α β : Type} (key : Kind α) (element : Kind β)
    (entry : α × β) : 0 < (key.encode entry.1 ++ element.encode entry.2).length := by
  rw [List.length_append]
  exact Nat.add_pos_left (key.length_encode_pos entry.1) _

theorem length_le_length_flatMap {α : Type} {encode : α → List UInt8}
    (hpos : ∀ value, 0 < (encode value).length) (values : List α) :
    values.length ≤ (values.flatMap encode).length := by
  induction values with
  | nil => exact Nat.le_refl _
  | cons value values ih =>
      have := hpos value
      rw [List.flatMap_cons, List.length_cons, List.length_append]
      omega

/-! ### Size -/

theorem foldl_sizeEstimate {α : Type} {job : α → Nat → Nat} {encode : α → List UInt8}
    (hjob : ∀ value offset, job value offset = Word.add 32 offset (encode value).length)
    (values : List α) (offset written : Nat) :
    values.foldl (fun offset value => job value offset) (Word.add 32 offset written) =
      Word.add 32 offset (written + (values.flatMap encode).length) := by
  induction values generalizing written with
  | nil => rfl
  | cons value values ih =>
      rw [List.foldl_cons, hjob, Word.add_add, ih, List.flatMap_cons, List.length_append,
        Nat.add_assoc]

/-- `SIZE_ESTIMATE` counts the bytes of the encoding. -/
theorem Kind.sizeEstimate_eq {α : Type} (kind : Kind α) (value : α) (offset : Nat) :
    kind.sizeEstimate value offset = Word.add 32 offset (kind.encode value).length := by
  induction kind generalizing offset with
  | string =>
      rw [sizeEstimate, getRawStringSize, Word.add_wrap, encode, List.length_append,
        length_bigEndian, Nat.add_comm]
  | id width hwidth => rw [sizeEstimate, encode, value.2]
  | memBlock initialSize =>
      rw [sizeEstimate, encode, List.length_append, length_bigEndian]
      exact Word.add_wrap 32 offset (4 + value.1.length)
  | vector kind ih =>
      rw [sizeEstimate, foldl_sizeEstimate ih, encode, List.length_append, length_bigEndian]
  | list kind ih =>
      rw [sizeEstimate, foldl_sizeEstimate ih, encode, List.length_append, length_bigEndian]
  | set kind ih =>
      rw [sizeEstimate, foldl_sizeEstimate ih, encode, List.length_append, length_bigEndian]
  | map key element ihKey ihElement =>
      have hentry : ∀ (entry : _ × _) (offset : Nat),
          element.sizeEstimate entry.2 (key.sizeEstimate entry.1 offset) =
            Word.add 32 offset (key.encode entry.1 ++ element.encode entry.2).length := by
        intro entry offset
        rw [ihKey, ihElement, Word.add_add, List.length_append]
      rw [sizeEstimate, foldl_sizeEstimate hentry, encode, List.length_append, length_bigEndian]
  | pair first second ihFirst ihSecond =>
      rw [sizeEstimate, ihFirst, ihSecond, Word.add_add, encode, List.length_append]
  | _ => simp [sizeEstimate, encode]

theorem Members.sizeEstimate_eq {α : Type} (members : Members α) (fields : α) (offset : Nat)
    (hoffset : offset < 2 ^ 32) :
    members.sizeEstimate fields offset =
      Word.add 32 offset (members.encode fields).length := by
  induction members generalizing offset with
  | nil => exact (Nat.mod_eq_of_lt hoffset).symm
  | cons kind rest ih =>
      rw [sizeEstimate, kind.sizeEstimate_eq, ih _ _ Word.add_lt, Word.add_add, encode,
        List.length_append]

/-! ### Writing -/

/-- With room for them, the job writes these bytes and nothing else. -/
def Writes (size : Nat) (job : WriteContext → WriteContext) (bytes : List UInt8) : Prop :=
  ∀ data offset, offset + bytes.length ≤ size →
    job ⟨⟨data, offset⟩, true⟩ = ⟨⟨blit data offset bytes, offset + bytes.length⟩, true⟩

section Writing

variable {size : Nat} (hsize : size < 2 ^ 32)

theorem Writes.skip : Writes size (fun ctx => ctx) [] := by
  intro data offset _
  rw [blit_nil]
  rfl

theorem Writes.append {first second : WriteContext → WriteContext} {left right : List UInt8}
    (hfirst : Writes size first left) (hsecond : Writes size second right) :
    Writes size (fun ctx => second (first ctx)) (left ++ right) := by
  intro data offset hroom
  rw [List.length_append] at hroom
  have hleft := hfirst data offset (by omega)
  have hright := hsecond (blit data offset left) (offset + left.length) (by omega)
  change second (first _) = _
  rw [hleft, hright, blit_append, List.length_append, Nat.add_assoc]

theorem Writes.foldl {α : Type} {job : α → WriteContext → WriteContext}
    {encode : α → List UInt8} (hjob : ∀ value, Writes size (job value) (encode value))
    (values : List α) :
    Writes size (fun ctx => values.foldl (fun ctx value => job value ctx) ctx)
      (values.flatMap encode) := by
  induction values with
  | nil => exact Writes.skip
  | cons value values ih => exact (hjob value).append ih

include hsize in
theorem put_of_room (data : Memory) (offset : Nat) (bytes : List UInt8)
    (hroom : offset + bytes.length ≤ size) :
    Writer.put bytes ⟨data, offset⟩ = ⟨blit data offset bytes, offset + bytes.length⟩ := by
  have hadd : Word.add 32 offset bytes.length = offset + bytes.length := Word.add_of_lt (by omega)
  unfold Writer.put
  rw [hadd]

include hsize in
theorem setRawUInt_of_room {width : Nat} (n : Nat) (data : Memory) {offset : Nat}
    (hroom : offset + width ≤ size) :
    setRawUInt width size n ⟨data, offset⟩ =
      (true, ⟨blit data offset (bigEndian width n), offset + width⟩) := by
  have hadd : Word.add 32 offset width = offset + width := Word.add_of_lt (by omega)
  have hput := put_of_room hsize data offset (bigEndian width n)
    (by rwa [length_bigEndian])
  rw [setRawUInt, hadd, if_neg (by omega), hput, length_bigEndian]

include hsize in
theorem writes_setRawUInt (width n : Nat) :
    Writes size (fun ctx => ctx.process (setRawUInt width size n)) (bigEndian width n) := by
  intro data offset hroom
  rw [length_bigEndian] at hroom
  change WriteContext.process _ _ = _
  rw [WriteContext.process, if_pos rfl, setRawUInt_of_room hsize n data hroom, length_bigEndian]

include hsize in
theorem writes_count (count : Nat) :
    Writes size (fun ctx => ctx.writeCount size count) (bigEndian 4 count) := by
  have hwrites := writes_setRawUInt hsize 4 (Word.wrap 32 count)
  have hbytes : bigEndian 4 (Word.wrap 32 count) = bigEndian 4 count :=
    bigEndian_mod 4 count 4 (Nat.le_refl 4)
  rw [hbytes] at hwrites
  exact hwrites

include hsize in
theorem writes_setRawString (str : List UInt8) :
    Writes size (fun ctx => ctx.process (setRawString size str))
      (bigEndian 4 str.length ++ str) := by
  intro data offset hroom
  rw [List.length_append, length_bigEndian] at hroom
  have hlen : Word.wrap 32 str.length = str.length := Word.wrap_of_lt (by omega)
  have hguard : ¬ (size < 4 ∨ size - 4 < str.length ∨ size - str.length - 4 < offset) := by omega
  have hword := setRawUInt_of_room hsize str.length data
    (show offset + 4 ≤ size by omega)
  have hput := put_of_room hsize (blit data offset (bigEndian 4 str.length)) (offset + 4) str
    (show offset + 4 + str.length ≤ size by omega)
  have hblit := blit_append data offset (bigEndian 4 str.length) str
  rw [length_bigEndian] at hblit
  have hraw : setRawString size str ⟨data, offset⟩ =
      (true, ⟨blit data offset (bigEndian 4 str.length ++ str), offset + 4 + str.length⟩) := by
    unfold setRawString setRawUInt32
    rw [hlen]
    change (if _ then _ else _) = _
    rw [if_neg hguard, hword]
    change (true, Writer.put _ _) = _
    rw [List.take_length, hput, hblit]
  change WriteContext.process _ _ = _
  rw [WriteContext.process, if_pos rfl, hraw, List.length_append, length_bigEndian, Nat.add_assoc]

include hsize in
theorem writes_serializeMemBlock (block : List UInt8) :
    Writes size (fun ctx => ctx.process (serializeMemBlock size block))
      (bigEndian 4 block.length ++ block) := by
  intro data offset hroom
  rw [List.length_append, length_bigEndian] at hroom
  have hword := setRawUInt_of_room hsize block.length data
    (show offset + 4 ≤ size by omega)
  have hput := put_of_room hsize (blit data offset (bigEndian 4 block.length)) (offset + 4) block
    (show offset + 4 + block.length ≤ size by omega)
  have hblit := blit_append data offset (bigEndian 4 block.length) block
  rw [length_bigEndian] at hblit
  have hraw : serializeMemBlock size block ⟨data, offset⟩ =
      (true, ⟨blit data offset (bigEndian 4 block.length ++ block),
        offset + 4 + block.length⟩) := by
    unfold serializeMemBlock setRawUInt32
    rw [hword]
    change (true, Writer.put _ _) = _
    rw [hput, hblit]
  change WriteContext.process _ _ = _
  rw [WriteContext.process, if_pos rfl, hraw, List.length_append, length_bigEndian, Nat.add_assoc]

include hsize in
theorem writes_setId (bytes : List UInt8) :
    Writes size (fun ctx => ctx.process (setId size bytes)) bytes := by
  intro data offset hroom
  have hadd : Word.add 32 offset bytes.length = offset + bytes.length :=
    Word.add_of_lt (by omega)
  change WriteContext.process _ _ = _
  rw [WriteContext.process, if_pos rfl, setId, hadd, if_neg (by omega),
    put_of_room hsize data offset bytes hroom]

include hsize in
/-- `SERIALIZE` writes the encoding. -/
theorem Kind.writes_serialize {α : Type} (kind : Kind α) (value : α) :
    Writes size (kind.serialize size value) (kind.encode value) := by
  induction kind with
  | bool => exact writes_setRawUInt hsize 1 value.toNat
  | uint width => exact writes_setRawUInt hsize width.bytes value.toNat
  | time => exact writes_setRawUInt hsize 8 value.toUInt64.toNat
  | string => exact writes_setRawString hsize value
  | id width hwidth => exact writes_setId hsize value.1
  | flags32 =>
      intro data offset hroom
      rw [encode, length_bigEndian] at hroom
      have hword := setRawUInt_of_room hsize value.toNat data hroom
      rw [serialize, setRawUInt32, hword, encode, length_bigEndian]
  | enum width => exact writes_setRawUInt hsize width.bytes value.toNat
  | memBlock initialSize => exact writes_serializeMemBlock hsize value.1
  | vector kind ih => exact (writes_count hsize _).append (Writes.foldl ih value.1)
  | list kind ih => exact (writes_count hsize _).append (Writes.foldl ih value)
  | set kind ih => exact (writes_count hsize _).append (Writes.foldl ih (value.sort (· ≤ ·)))
  | map key element ihKey ihElement =>
      exact (writes_count hsize _).append
        (Writes.foldl (fun entry => (ihKey entry.1).append (ihElement entry.2)) value.toList)
  | pair first second ihFirst ihSecond => exact (ihFirst value.1).append (ihSecond value.2)

include hsize in
theorem Members.writes_serialize {α : Type} (members : Members α) (fields : α) :
    Writes size (members.serialize size fields) (members.encode fields) := by
  induction members with
  | nil => exact Writes.skip
  | cons kind rest ih => exact (kind.writes_serialize hsize fields.1).append (ih fields.2)

end Writing

end RetroShare.Serialiser
