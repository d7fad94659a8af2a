import RetroShare.Pgp.RsCertificate

/-!
# Sections

A section as it stands in a buffer: a tag, a size code and as many bytes as the code says. What the
size reader makes of a buffer is decided by whether a code stands at its beginning.
-/

namespace RetroShare.Pgp

variable {Code : Type}

/-! ### Size codes -/

/-- The bytes are a code of that size. -/
inductive SizeCode : List UInt8 → Nat → Prop
  | one (b1 : UInt8) (hsmall : b1 < 192) : SizeCode [b1] b1.toNat
  | two (b1 b2 : UInt8) (hlow : ¬b1 < 192) (hhigh : b1 < 224) :
      SizeCode [b1, b2] ((b1.toNat - 192) * 2 ^ 8 + b2.toNat + 192)
  | five (b2 b3 b4 b5 : UInt8) : SizeCode [0xff, b2, b3, b4, b5]
      (b2.toNat * 2 ^ 24 + b3.toNat * 2 ^ 16 + b4.toNat * 2 ^ 8 + b5.toNat)

/-- The reader refuses two bytes that begin like this. -/
def BadSize (data : List UInt8) : Prop :=
  ∃ b1 b2 tail, data = b1 :: b2 :: tail ∧ ¬b1 < 224 ∧ b1 ≠ 0xff

theorem SizeCode.length_pos {code : List UInt8} {size : Nat} (hcode : SizeCode code size) :
    0 < code.length := by
  cases hcode <;> exact Nat.zero_lt_succ _

@[simp] theorem readByte_cons (byte : UInt8) (data : List UInt8) :
    readByte (byte :: data) = (.ok (byte, data) : Except (Stop Code) _) := rfl

@[simp] theorem readByte_nil : readByte [] = (.error .outside : Except (Stop Code) _) := rfl

/-- A code at the beginning is read. -/
theorem read125Size_code {code : List UInt8} {size : Nat} (hcode : SizeCode code size)
    (tail : List UInt8) :
    read125Size (code ++ tail) = (.ok (size, tail) : Except (Stop Code) _) := by
  unfold read125Size
  cases hcode with
  | one b1 hsmall =>
      rw [List.singleton_append, readByte_cons]
      exact if_pos hsmall
  | two b1 b2 hlow hhigh =>
      rw [List.cons_append, List.singleton_append, readByte_cons]
      refine (if_neg hlow).trans ?_
      rw [readByte_cons]
      exact if_pos hhigh
  | five b2 b3 b4 b5 => rfl

theorem read125Size_bad {data : List UInt8} (hbad : BadSize data) :
    read125Size data = (.error .thrown : Except (Stop Code) _) := by
  obtain ⟨b1, b2, tail, rfl, hhigh, hne⟩ := hbad
  have hlow : ¬b1 < 192 := fun hlow => hhigh (hlow.trans (by decide))
  unfold read125Size
  rw [readByte_cons]
  refine (if_neg hlow).trans ?_
  rw [readByte_cons]
  exact (if_neg hhigh).trans (if_pos hne)

/-- Anything else is too short. -/
theorem read125Size_cases (data : List UInt8) :
    (∃ code size tail, data = code ++ tail ∧ SizeCode code size) ∨ BadSize data ∨
      read125Size data = (.error .outside : Except (Stop Code) _) := by
  match data with
  | [] => exact .inr (.inr rfl)
  | b1 :: data =>
      by_cases hlow : b1 < 192
      · exact .inl ⟨[b1], _, data, rfl, .one b1 hlow⟩
      · match data with
        | [] =>
            refine .inr (.inr ?_)
            unfold read125Size
            rw [readByte_cons]
            exact if_neg hlow
        | b2 :: data =>
            by_cases hhigh : b1 < 224
            · exact .inl ⟨[b1, b2], _, data, rfl, .two b1 b2 hlow hhigh⟩
            · by_cases hlong : b1 = 0xff
              · subst hlong
                match data with
                | b3 :: b4 :: b5 :: data =>
                    exact .inl ⟨[0xff, b2, b3, b4, b5], _, data, rfl, .five b2 b3 b4 b5⟩
                | [] | [_] | [_, _] => exact .inr (.inr rfl)
              · exact .inr (.inl ⟨b1, b2, data, rfl, hhigh, hlong⟩)

/-! ### Sections -/

structure Section where
  ptag : UInt8
  code : List UInt8
  body : List UInt8
  coded : SizeCode code body.length

def Section.bytes (sec : Section) : List UInt8 := sec.ptag :: (sec.code ++ sec.body)

theorem Section.bytes_append (sec : Section) (rest : List UInt8) :
    sec.bytes ++ rest = sec.ptag :: (sec.code ++ (sec.body ++ rest)) := by
  simp [Section.bytes]

def bytesOf (sections : List Section) : List UInt8 := sections.flatMap Section.bytes

@[simp] theorem bytesOf_nil : bytesOf [] = [] := rfl

@[simp] theorem bytesOf_cons (sec : Section) (sections : List Section) :
    bytesOf (sec :: sections) = sec.ptag :: (sec.code ++ (sec.body ++ bytesOf sections)) := by
  simp [bytesOf, Section.bytes]

@[simp] theorem bytesOf_append (front back : List Section) :
    bytesOf (front ++ back) = bytesOf front ++ bytesOf back := by
  simp [bytesOf]

/-- The first section of a buffer is fixed by its bytes. -/
theorem section_unique {code code' rest rest' : List UInt8} {size size' : Nat}
    (hcode : SizeCode code size) (hcode' : SizeCode code' size')
    (heq : code ++ rest = code' ++ rest') : code = code' ∧ size = size' ∧ rest = rest' := by
  have hread : (.ok (size, rest) : Except (Stop Unit) _) = .ok (size', rest') := by
    rw [← read125Size_code hcode rest, heq, read125Size_code hcode' rest']
  obtain ⟨rfl, rfl⟩ := Prod.mk.inj (Except.ok.inj hread)
  exact ⟨List.append_cancel_right heq, rfl, rfl⟩

theorem Section.bytes_append_inj {sec sec' : Section} {rest rest' : List UInt8}
    (heq : sec.bytes ++ rest = sec'.bytes ++ rest') : sec = sec' ∧ rest = rest' := by
  obtain ⟨ptag, code, body, coded⟩ := sec
  obtain ⟨ptag', code', body', coded'⟩ := sec'
  simp only [Section.bytes, List.cons_append, List.append_assoc, List.cons.injEq] at heq
  obtain ⟨rfl, heq⟩ := heq
  obtain ⟨rfl, hsize, hbody⟩ := section_unique coded coded' heq
  obtain ⟨rfl, rfl⟩ := List.append_inj hbody hsize
  exact ⟨rfl, rfl⟩

end RetroShare.Pgp
