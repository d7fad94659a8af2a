import RetroShare.Crypto.ChaCha20
import RetroShare.Crypto.Proof.Poly1305

/-!
# Authenticated encryption

Encryption and decryption combine every byte with the same byte of the key stream, and both give the
input that the standard prescribes to the authenticator.
-/

namespace RetroShare.Crypto

open Limbs Uint256 Rfc7539

/-! ### The stream cipher -/

/-- The function combines each byte of a buffer with a byte that depends on the place only. -/
def Masks (f : List UInt8 → List UInt8) : Prop :=
  ∃ mask : Nat → UInt8, ∀ data, f data = data.mapIdx fun n byte => byte ^^^ mask n

theorem masks_id : Masks fun data => data := by
  refine ⟨fun _ => 0, fun data => ?_⟩
  apply List.ext_getElem
  · simp
  · intro n _ _
    simp

theorem Masks.comp {f g : List UInt8 → List UInt8} (hf : Masks f) (hg : Masks g) :
    Masks fun data => g (f data) := by
  obtain ⟨mask, hf⟩ := hf
  obtain ⟨mask', hg⟩ := hg
  refine ⟨fun n => mask n ^^^ mask' n, fun data => ?_⟩
  change g (f data) = _
  rw [hg, hf]
  apply List.ext_getElem
  · simp
  · intro n _ _
    simp [UInt8.xor_assoc]

theorem masks_modify (place : Nat) (key : UInt8) : Masks (·.modify place (· ^^^ key)) := by
  refine ⟨fun n => if place = n then key else 0, fun data => ?_⟩
  apply List.ext_getElem
  · simp
  · intro n _ _
    simp only [List.getElem_modify, List.getElem_mapIdx]
    by_cases hn : place = n <;> simp [hn]

theorem masks_foldl {ι : Type} {step : List UInt8 → ι → List UInt8}
    (hstep : ∀ i, Masks (step · i)) (keys : List ι) : Masks fun data => keys.foldl step data := by
  induction keys with
  | nil => exact masks_id
  | cons i keys ih => exact (hstep i).comp ih

theorem Masks.involutive {f : List UInt8 → List UInt8} (hf : Masks f) (data : List UInt8) :
    f (f data) = data := by
  obtain ⟨mask, hf⟩ := hf
  rw [hf, hf]
  apply List.ext_getElem
  · simp
  · intro n _ _
    simp [UInt8.xor_assoc]

theorem Masks.length {f : List UInt8 → List UInt8} (hf : Masks f) (data : List UInt8) :
    (f data).length = data.length := by
  obtain ⟨mask, hf⟩ := hf
  rw [hf, List.length_mapIdx]

theorem masks_chacha20Encrypt (key : Vector UInt8 32) (blockCounter : UInt32)
    (nonce : Vector UInt8 12) (size : UInt32) :
    Masks (chacha20Encrypt key blockCounter nonce · size) := by
  apply masks_foldl
  intro i
  apply masks_foldl
  intro k
  by_cases hk : k.val + 64 * i < size.toNat
  · simp only [if_pos hk]
    exact masks_modify _ _
  · simp only [if_neg hk]
    exact masks_id

/-! ### Padded input -/

theorem length_pad16 (message : List UInt8) :
    (pad16 message).length = 16 * blockCount message := by
  rw [pad16, List.length_append, List.length_replicate, blockCount]
  omega

theorem block_pad16 {message : List UInt8} {i : Nat} (hi : i < blockCount message) :
    block (pad16 message) i =
      block message i ++ List.replicate (16 - (block message i).length) 0 := by
  have hstart : 16 * i < message.length := by
    rw [blockCount] at hi
    omega
  have hzeros : min (16 - (message.length - 16 * i)) (16 * blockCount message - message.length) =
      16 - min 16 (message.length - 16 * i) := by
    rw [blockCount] at hi ⊢
    omega
  rw [block, pad16, List.drop_append_of_le_length hstart.le, List.take_append, List.length_drop,
    List.take_replicate, length_block, hzeros]
  rfl

theorem absorb_congr {r a : Nat} {message message' : List UInt8} {n : Nat}
    (hblocks : ∀ i < n, block message i = block message' i) :
    absorb r a message n = absorb r a message' n := by
  induction n with
  | zero => rfl
  | succ n ih =>
      rw [absorb, absorb, ih fun i hi => hblocks i (Nat.lt_succ_of_lt hi),
        hblocks n (Nat.lt_succ_self n)]

/-- Whole blocks first, then the rest of the message. -/
theorem absorb_append (r a : Nat) {first : List UInt8} {count : Nat}
    (hfirst : first.length = 16 * count) (rest : List UInt8) (n : Nat) :
    absorb r a (first ++ rest) (count + n) = absorb r (absorb r a first count) rest n := by
  induction n with
  | zero =>
      apply absorb_congr
      intro i hi
      rw [block, block, List.drop_append_of_le_length (by omega), List.take_append_of_le_length
        (by rw [List.length_drop]; omega)]
  | succ n ih =>
      have hblock : block (first ++ rest) (count + n) = block rest n := by
        rw [block, block, Nat.mul_add, ← hfirst, List.drop_append, Nat.add_sub_cancel_left,
          List.drop_eq_nil_of_le (Nat.le_add_right _ _), List.nil_append]
      rw [← Nat.add_assoc, absorb, absorb, ih, hblock]

theorem absorbing_addBlocks_pad {s : Poly1305State} {key : Vector UInt8 32} {a : Nat}
    (hs : Absorbing s key a) {message : List UInt8} {size : UInt32}
    (hsize : message.length = size.toNat) :
    ∀ blocks ≤ blockCount message,
      Absorbing (poly1305AddBlocks s message size true blocks) key
        (absorb (keyR key) a (pad16 message) blocks) := by
  intro blocks
  induction blocks with
  | zero => exact fun _ => hs
  | succ blocks ih =>
      intro hblocks
      have hvalue := value_messageBlock_pad blocks hsize
      rw [← block_pad16 hblocks] at hvalue
      have hsmall := hvalue ▸ leBytesToNum_block_lt (length_block_le (pad16 message) blocks)
      have hround := absorbing_addBlock (ih (Nat.le_of_succ_le hblocks)) hsmall
      rw [hvalue] at hround
      rw [poly1305AddBlocks, List.range_succ, List.foldl_append]
      exact hround

theorem absorbing_add_pad {s : Poly1305State} {key : Vector UInt8 32} {a : Nat}
    (hs : Absorbing s key a) {message : List UInt8} {size : UInt32}
    (hsize : message.length = size.toNat) (hbound : size.toNat < 2 ^ 32 - 15) :
    Absorbing (poly1305Add s message size true) key
      (absorb (keyR key) a (pad16 message) (blockCount message)) := by
  have hcount : ((size + 15) / 16).toNat = blockCount message := by
    rw [blocks_toNat hbound, blockCount, hsize]
  rw [poly1305Add, hcount]
  exact absorbing_addBlocks_pad hs hsize _ (Nat.le_refl _)

/-! ### The tag -/

theorem length_byte (size : UInt32) (i : Nat) (hi : i < 4) :
    ((size >>> UInt32.ofNat (8 * i)) &&& 0xff).toUInt8 = UInt8.ofNat (size.toNat / 256 ^ i) := by
  have hdistance : (UInt32.ofNat (8 * i)).toNat % 32 = 8 * i := by
    rw [UInt32.toNat_ofNat']
    omega
  have hpow : 2 ^ (8 * i) = 256 ^ i := Nat.pow_mul 2 8 i
  apply UInt8.toNat_inj.mp
  rw [UInt32.toNat_toUInt8, UInt32.toNat_and, UInt32.toNat_shiftRight, hdistance,
    Nat.shiftRight_eq_div_pow, hpow, UInt8.toNat_ofNat']
  change (_ &&& 2 ^ 8 - 1) % 2 ^ 8 = _
  rw [Nat.and_two_pow_sub_one_eq_mod, Nat.mod_mod]

theorem le64_eq (size : UInt32) :
    le64 size.toNat =
      ((List.range 4).map fun i => ((size >>> UInt32.ofNat (8 * i)) &&& 0xff).toUInt8) ++
        List.replicate 4 0 := by
  have hsize := size.toNat_lt
  have hhigh : ∀ i, 4 ≤ i → UInt8.ofNat (size.toNat / 256 ^ i) = 0 := by
    intro i hi
    have hpow : 2 ^ 32 ≤ 256 ^ i := Nat.pow_le_pow_right (show 0 < 256 by omega) hi
    rw [Nat.div_eq_of_lt (hsize.trans_le hpow)]
    rfl
  apply List.ext_getElem
  · simp [le64]
  · intro i hi _
    rw [le64, List.length_ofFn] at hi
    simp only [le64, List.getElem_ofFn]
    by_cases hlow : i < 4
    · rw [List.getElem_append_left (by simpa using hlow), List.getElem_map, List.getElem_range,
        length_byte size i hlow]
    · rw [List.getElem_append_right (by simpa using hlow), List.getElem_replicate,
        hhigh i (by omega)]

theorem lengthsVector_eq (aadSize dataSize : UInt32) :
    lengthsVector aadSize dataSize = le64 aadSize.toNat ++ le64 dataSize.toNat := by
  rw [le64_eq, le64_eq, lengthsVector, List.append_assoc, List.append_assoc]

theorem aeadTag_eq_mac (sessionKey : Vector UInt8 32) {aad data : List UInt8}
    {aadSize dataSize : UInt32} (haad : aad.length = aadSize.toNat)
    (hdata : data.length = dataSize.toNat) (haadBound : aadSize.toNat < 2 ^ 32 - 15)
    (hdataBound : dataSize.toNat < 2 ^ 32 - 15) :
    aeadTag sessionKey aad aadSize data dataSize = poly1305Mac sessionKey (macData aad data) := by
  have hlengths : (lengthsVector aadSize dataSize).length = 16 := by
    simp [lengthsVector]
  have hafterAad := absorbing_add_pad (absorbing_init sessionKey) haad haadBound
  have hafterData := absorbing_add_pad hafterAad hdata hdataBound
  have hafterAll := absorbing_add_pad hafterData
    (show _ = (16 : UInt32).toNat from hlengths) (by decide)
  have hpadded : pad16 (lengthsVector aadSize dataSize) = lengthsVector aadSize dataSize := by
    rw [pad16, blockCount, hlengths]
    exact List.append_nil _
  have hinput : macData aad data =
      pad16 aad ++ (pad16 data ++ lengthsVector aadSize dataSize) := by
    rw [lengthsVector_eq, macData, haad, hdata, List.append_assoc, List.append_assoc]
  have hcount : blockCount (macData aad data) = blockCount aad + (blockCount data + 1) := by
    rw [hinput, blockCount, List.length_append, List.length_append, length_pad16, length_pad16,
      hlengths]
    omega
  have hone : blockCount (lengthsVector aadSize dataSize) = 1 := by rw [blockCount, hlengths]
  have habsorb := absorb_append (keyR sessionKey) 0 (length_pad16 aad)
    (pad16 data ++ lengthsVector aadSize dataSize) (blockCount data + 1)
  rw [absorb_append _ _ (length_pad16 data)] at habsorb
  rw [hpadded, hone] at hafterAll
  rw [poly1305Mac, hcount, hinput, habsorb]
  exact (poly1305Finish_eq hafterAll).2

/-! ### Round trip -/

section RoundTrip

variable {memcmp : List UInt8 → List UInt8 → UInt32 → Int}

theorem constantTimeMemoryCompare_iff
    (hmemcmp : ∀ m1 m2 size, m1.length = size.toNat → m2.length = size.toNat →
      (memcmp m1 m2 size = 0 ↔ m1 = m2))
    (tag tag' : Vector UInt8 16) :
    constantTimeMemoryCompare memcmp tag.toList tag'.toList 16 = true ↔ tag = tag' := by
  rw [constantTimeMemoryCompare, beq_iff_eq,
    hmemcmp _ _ 16 (Vector.length_toList) (Vector.length_toList)]
  exact Vector.toList_inj

theorem aead_decrypt (key : Vector UInt8 32) (nonce : Vector UInt8 12) (data aad : List UInt8)
    (dataSize aadSize : UInt32) (tag : Vector UInt8 16) :
    aeadChacha20Poly1305 memcmp key nonce data dataSize aad aadSize tag false =
      (chacha20Encrypt key 1 nonce data dataSize, tag, constantTimeMemoryCompare memcmp tag.toList
        (aeadTag (poly1305KeyGen key nonce) aad aadSize data dataSize).toList 16) :=
  rfl

/-- Encryption gives the tag of the standard, decryption restores the data, and only the tag that
encryption would give is accepted. -/
theorem aead_decrypt_encrypt
    (hmemcmp : ∀ m1 m2 size, m1.length = size.toNat → m2.length = size.toNat →
      (memcmp m1 m2 size = 0 ↔ m1 = m2))
    (key : Vector UInt8 32) (nonce : Vector UInt8 12) (data aad : List UInt8)
    (dataSize aadSize : UInt32) (hdata : data.length = dataSize.toNat)
    (haad : aad.length = aadSize.toNat) (hdataBound : dataSize.toNat < 2 ^ 32 - 15)
    (haadBound : aadSize.toNat < 2 ^ 32 - 15) (tag : Vector UInt8 16) :
    let (ciphertext, newTag, result) :=
      aeadChacha20Poly1305 memcmp key nonce data dataSize aad aadSize tag true
    result = true ∧
      newTag = poly1305Mac (poly1305KeyGen key nonce) (macData aad ciphertext) ∧
      aeadChacha20Poly1305 memcmp key nonce ciphertext dataSize aad aadSize newTag false =
        (data, newTag, true) ∧
      ∀ (received : List UInt8) (tag' : Vector UInt8 16), received.length = dataSize.toNat →
        tag' ≠ poly1305Mac (poly1305KeyGen key nonce) (macData aad received) →
        (aeadChacha20Poly1305 memcmp key nonce received dataSize aad aadSize tag' false).2.2 =
          false := by
  have hmasks := masks_chacha20Encrypt key 1 nonce dataSize
  have hcipher : (chacha20Encrypt key 1 nonce data dataSize).length = dataSize.toNat := by
    rw [hmasks.length, hdata]
  have htag : ∀ received : List UInt8, received.length = dataSize.toNat →
      aeadTag (poly1305KeyGen key nonce) aad aadSize received dataSize =
        poly1305Mac (poly1305KeyGen key nonce) (macData aad received) :=
    fun received hreceived => aeadTag_eq_mac _ haad hreceived haadBound hdataBound
  refine ⟨rfl, htag _ hcipher, ?_, ?_⟩
  · rw [aead_decrypt, hmasks.involutive, (constantTimeMemoryCompare_iff hmemcmp _ _).mpr rfl]
  · intro received tag' hreceived hne
    rw [aead_decrypt, htag received hreceived]
    exact Bool.eq_false_iff.mpr (mt (constantTimeMemoryCompare_iff hmemcmp _ _).mp hne)

end RoundTrip

/-- A comparison that does what the one of the library does. -/
def compareBytes (m1 m2 : List UInt8) (_size : UInt32) : Int := if m1 = m2 then 0 else 1

theorem compareBytes_eq_zero (m1 m2 : List UInt8) (size : UInt32) :
    compareBytes m1 m2 size = 0 ↔ m1 = m2 := by
  unfold compareBytes
  split <;> simp [*]

def exampleNonce : Vector UInt8 12 :=
  #v[0x07, 0, 0, 0, 0x40, 0x41, 0x42, 0x43, 0x44, 0x45, 0x46, 0x47]

theorem aead_decrypt_encrypt_example :
    let sealed := aeadChacha20Poly1305 compareBytes exampleKey exampleNonce exampleMessage 34
      [0x50, 0x51, 0x52] 3 (Vector.replicate 16 0) true
    sealed.2.2 = true ∧
      aeadChacha20Poly1305 compareBytes exampleKey exampleNonce sealed.1 34 [0x50, 0x51, 0x52] 3
        sealed.2.1 false = (exampleMessage, sealed.2.1, true) :=
  have hexample := aead_decrypt_encrypt (fun m1 m2 size _ _ => compareBytes_eq_zero m1 m2 size)
    exampleKey exampleNonce exampleMessage [0x50, 0x51, 0x52] 34 3 rfl rfl (by decide) (by decide)
    (Vector.replicate 16 0)
  ⟨hexample.1, hexample.2.2.1⟩

end RetroShare.Crypto
