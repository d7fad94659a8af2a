import RetroShare.Crypto.ChaCha20
import RetroShare.Crypto.Rfc7539
import RetroShare.Crypto.Proof.Uint256

/-!
# The tag is the one of RFC 7539

Key and blocks are read as the numbers the standard speaks of, and the accumulator stays below the
prime, so that neither the sum nor the product of a round leaves 256 bits.
-/

namespace RetroShare.Crypto

open Limbs Uint256 Rfc7539

/-! ### Bytes as digits -/

theorem leBytesToNum_append (bytes rest : List UInt8) :
    leBytesToNum (bytes ++ rest) = leBytesToNum bytes + 256 ^ bytes.length * leBytesToNum rest := by
  rw [leBytesToNum, List.map_append, Nat.ofDigits_append, List.length_map]
  rfl

theorem leBytesToNum_singleton (byte : UInt8) : leBytesToNum [byte] = byte.toNat := by
  simp [leBytesToNum]

theorem leBytesToNum_replicate_zero (n : Nat) : leBytesToNum (List.replicate n 0) = 0 := by
  induction n with
  | zero => rfl
  | succ n ih =>
      rw [List.replicate_succ, ← List.singleton_append, leBytesToNum_append, ih]
      rfl

theorem leBytesToNum_lt (bytes : List UInt8) : leBytesToNum bytes < 256 ^ bytes.length := by
  induction bytes using List.reverseRecOn with
  | nil => exact Nat.one_pos
  | append_singleton bytes byte ih =>
      have hbyte := byte.toNat_lt
      rw [leBytesToNum_append, leBytesToNum_singleton, List.length_append, List.length_singleton]
      calc
        leBytesToNum bytes + 256 ^ bytes.length * byte.toNat <
            256 ^ bytes.length + 256 ^ bytes.length * byte.toNat := Nat.add_lt_add_right ih _
        _ = 256 ^ bytes.length * (byte.toNat + 1) := by ring
        _ ≤ 256 ^ bytes.length * 256 := Nat.mul_le_mul_left _ hbyte
        _ = 256 ^ (bytes.length + 1) := (Nat.pow_succ _ _).symm

theorem radix_eq_bytes (k m : Nat) : radix ^ k * 256 ^ m = 256 ^ (4 * k + m) := by
  rw [Nat.pow_add, Nat.pow_mul]
  rfl

/-- A byte is added to a place that is still empty. -/
theorem value_modify_byte {block : Uint256} {j byte : Nat} (hj : j < 32)
    (hblock : block.value < 256 ^ j) (hbyte : byte < 256) {f : UInt32 → UInt32}
    (hf : ∀ limb : UInt32, limb.toNat + byte * 256 ^ (j % 4) < radix →
      (f limb).toNat = limb.toNat + byte * 256 ^ (j % 4)) :
    (block.modify (j / 4) f).value = block.value + byte * 256 ^ j := by
  have hmodify := value_modify block.b (j / 4) (by rw [block.length_b]; omega) f
  have hplace : 256 ^ j = radix ^ (j / 4) * 256 ^ (j % 4) := by
    rw [radix_eq_bytes, Nat.div_add_mod]
  have hlimb : (block.b.getD (j / 4) 0).toNat < 256 ^ (j % 4) := by
    rw [getD_eq_digit]
    apply (Nat.mod_le _ _).trans_lt
    apply Nat.div_lt_of_lt_mul
    rw [← hplace]
    exact hblock
  have hroom : (block.b.getD (j / 4) 0).toNat + byte * 256 ^ (j % 4) < radix := by
    have hpow : 256 ^ (j % 4) * 256 ≤ radix := by
      rw [← Nat.pow_succ]
      exact Nat.pow_le_pow_right (show 0 < 256 by omega) (show j % 4 + 1 ≤ 4 by omega)
    have hstep : (byte + 1) * 256 ^ (j % 4) ≤ 256 * 256 ^ (j % 4) :=
      Nat.mul_le_mul_right _ hbyte
    rw [Nat.add_mul, Nat.one_mul] at hstep
    omega
  rw [hf _ hroom, Nat.add_mul] at hmodify
  rw [hplace]
  change Limbs.value (block.b.modify (j / 4) f) = Limbs.value block.b + _
  have hcomm : byte * 256 ^ (j % 4) * radix ^ (j / 4) = byte * (radix ^ (j / 4) * 256 ^ (j % 4)) := by
    ring
  omega

/-- A byte shifted to its place in a limb. -/
theorem shifted_byte_toNat {j : Nat} (limb : UInt32) (byte : UInt8)
    (hroom : limb.toNat + byte.toNat * 256 ^ (j % 4) < radix) :
    (limb.toUInt64 + (byte.toUInt64 <<< UInt64.ofNat (8 * (j % 4)))).toUInt32.toNat =
      limb.toNat + byte.toNat * 256 ^ (j % 4) := by
  have hdistance : (UInt64.ofNat (8 * (j % 4))).toNat % 64 = 8 * (j % 4) := by
    rw [UInt64.toNat_ofNat']
    omega
  have hpow : 2 ^ (8 * (j % 4)) = 256 ^ (j % 4) := Nat.pow_mul 2 8 (j % 4)
  unfold radix at hroom
  rw [UInt64.toNat_toUInt32, UInt64.toNat_add, UInt64.toNat_shiftLeft, UInt32.toNat_toUInt64,
    UInt8.toNat_toUInt64, hdistance, Nat.shiftLeft_eq, hpow]
  generalize byte.toNat * 256 ^ (j % 4) = shifted at hroom ⊢
  omega

theorem terminator_toNat {j : Nat} (limb : UInt32)
    (hroom : limb.toNat + 1 * 256 ^ (j % 4) < radix) :
    (limb + (0x01 <<< UInt32.ofNat (8 * (j % 4)))).toNat = limb.toNat + 1 * 256 ^ (j % 4) := by
  have hdistance : (UInt32.ofNat (8 * (j % 4))).toNat % 32 = 8 * (j % 4) := by
    rw [UInt32.toNat_ofNat']
    omega
  have hpow : 2 ^ (8 * (j % 4)) = 256 ^ (j % 4) := Nat.pow_mul 2 8 (j % 4)
  have hone : (0x01 : UInt32).toNat = 1 := rfl
  unfold radix at hroom
  rw [UInt32.toNat_add, UInt32.toNat_shiftLeft, hdistance, Nat.shiftLeft_eq, hpow, hone]
  generalize 1 * 256 ^ (j % 4) = shifted at hroom ⊢
  omega

/-! ### Blocks -/

theorem length_block (message : List UInt8) (i : Nat) :
    (block message i).length = min 16 (message.length - 16 * i) := by
  rw [block, List.length_take, List.length_drop]

theorem take_block_succ {message : List UInt8} {i j : Nat} (hj : j < (block message i).length) :
    leBytesToNum ((block message i).take (j + 1)) =
      leBytesToNum ((block message i).take j) + (message.getD (i * 16 + j) 0).toNat * 256 ^ j := by
  have hlength := length_block message i
  have hbyte : (block message i)[j] = message.getD (i * 16 + j) 0 := by
    simp only [block, List.getElem_take, List.getElem_drop]
    rw [List.getD_eq_getElem?_getD, List.getElem?_eq_getElem (by omega), Option.getD_some]
    congr 1
    omega
  rw [List.take_add_one, List.getElem?_eq_getElem hj, Option.toList_some, leBytesToNum_append,
    leBytesToNum_singleton, hbyte, List.length_take, Nat.min_eq_left hj.le, Nat.mul_comm]

theorem fillBlock_spec {message : List UInt8} {size : UInt32} (i : Nat)
    (hsize : message.length = size.toNat) :
    ∀ (bytes j : Nat) (value : Uint256), j + bytes = 16 → j ≤ (block message i).length →
      value.value = leBytesToNum ((block message i).take j) →
        (fillBlock message size i bytes j value).1.value = leBytesToNum (block message i) ∧
          (fillBlock message size i bytes j value).2 = (block message i).length := by
  have hlength := length_block message i
  intro bytes
  induction bytes with
  | zero =>
      intro j value hj hle hvalue
      have hall : j = (block message i).length := by omega
      rw [hall, List.take_length] at hvalue
      exact ⟨hvalue, hall⟩
  | succ bytes ih =>
      intro j value hj hle hvalue
      rw [fillBlock]
      by_cases hmore : i * 16 + j < size.toNat
      · have hlt : j < (block message i).length := by omega
        have hempty : value.value < 256 ^ j := by
          have hlow := leBytesToNum_lt ((block message i).take j)
          rw [List.length_take, Nat.min_eq_left hle] at hlow
          rwa [hvalue]
        rw [if_pos hmore]
        apply ih (j + 1) _ (by omega) hlt
        rw [take_block_succ hlt, ← hvalue]
        exact value_modify_byte (by omega) hempty (UInt8.toNat_lt _)
          fun limb hroom => shifted_byte_toNat limb _ hroom
      · have hall : j = (block message i).length := by omega
        rw [hall, List.take_length] at hvalue
        rw [if_neg hmore]
        exact ⟨hvalue, hall⟩

theorem value_messageBlock {message : List UInt8} {size : UInt32} (i : Nat)
    (hsize : message.length = size.toNat) :
    (messageBlock message size false i).value = leBytesToNum (block message i ++ [1]) := by
  obtain ⟨hvalue, hj⟩ := fillBlock_spec i hsize 16 0 .zero rfl (Nat.zero_le _) rfl
  have hlength := length_block message i
  have hempty := leBytesToNum_lt (block message i)
  rw [leBytesToNum_append, leBytesToNum_singleton, Nat.mul_comm]
  simp only [messageBlock, Bool.false_eq_true, if_false]
  rw [hj, value_modify_byte (by omega) (hvalue ▸ hempty) (show 1 < 256 by omega)
    fun limb hroom => terminator_toNat limb hroom, hvalue]
  rfl

/-- With padding the terminating bit comes behind sixteen bytes. -/
theorem value_messageBlock_pad {message : List UInt8} {size : UInt32} (i : Nat)
    (hsize : message.length = size.toNat) :
    (messageBlock message size true i).value =
      leBytesToNum (block message i ++ List.replicate (16 - (block message i).length) 0 ++ [1]) := by
  obtain ⟨hvalue, hj⟩ := fillBlock_spec i hsize 16 0 .zero rfl (Nat.zero_le _) rfl
  have hlength := length_block message i
  have hempty : leBytesToNum (block message i) < 256 ^ 16 :=
    (leBytesToNum_lt _).trans_le (Nat.pow_le_pow_right (by omega) (by omega))
  have hterminator := value_modify_byte (j := 16) (by omega) (hvalue ▸ hempty)
    (show 1 < 256 by omega) fun limb hroom => terminator_toNat limb hroom
  rw [leBytesToNum_append, leBytesToNum_append, leBytesToNum_replicate_zero,
    leBytesToNum_singleton, List.length_append, List.length_replicate, Nat.mul_zero, Nat.add_zero,
    show (block message i).length + (16 - (block message i).length) = 16 by omega, ← hvalue,
    Nat.mul_comm]
  exact hterminator

/-! ### The key -/

theorem word32_toNat (b0 b1 b2 b3 : UInt8) :
    (word32 b0 b1 b2 b3).toNat = leBytesToNum [b0, b1, b2, b3] := by
  have h0 := b0.toNat_lt
  have h1 := b1.toNat_lt
  have h2 := b2.toNat_lt
  have h3 := b3.toNat_lt
  have hnum : leBytesToNum [b0, b1, b2, b3] =
      b0.toNat + 256 * b1.toNat + 65536 * b2.toNat + 16777216 * b3.toNat := by
    simp only [leBytesToNum, List.map_cons, List.map_nil, Nat.ofDigits_cons, Nat.ofDigits_nil]
    omega
  rw [hnum, word32]
  simp only [UInt32.toNat_add, UInt32.toNat_shiftLeft, UInt8.toNat_toUInt32, Nat.shiftLeft_eq]
  change (((b0.toNat + b1.toNat * 2 ^ 8 % 2 ^ 32) % 2 ^ 32 + b2.toNat * 2 ^ 16 % 2 ^ 32) % 2 ^ 32 +
    b3.toNat * 2 ^ 24 % 2 ^ 32) % 2 ^ 32 = _
  omega

theorem leBytesToNum_four (b0 b1 b2 b3 : UInt8) (rest : List UInt8) :
    leBytesToNum (b0 :: b1 :: b2 :: b3 :: rest) =
      (word32 b0 b1 b2 b3).toNat + radix * leBytesToNum rest := by
  have hradix : radix = 256 ^ 4 := by decide
  change leBytesToNum ([b0, b1, b2, b3] ++ rest) = _
  rw [leBytesToNum_append, word32_toNat, hradix]
  rfl

theorem value_append_zeros (limbs : List UInt32) (n : Nat) :
    Limbs.value (limbs ++ List.replicate n 0) = Limbs.value limbs := by
  rw [value_append, value_replicate_zero, Nat.mul_zero, Nat.add_zero]

theorem value_init_s (key : Vector UInt8 32) : (poly1305Init key).s.value = keyS key := by
  have hlimbs := value_append_zeros
    [word32 key[16] key[17] key[18] key[19], word32 key[20] key[21] key[22] key[23],
      word32 key[24] key[25] key[26] key[27], word32 key[28] key[29] key[30] key[31]] 4
  have hbytes : keyS key = leBytesToNum
      [key[16], key[17], key[18], key[19], key[20], key[21], key[22], key[23],
        key[24], key[25], key[26], key[27], key[28], key[29], key[30], key[31]] := rfl
  rw [hbytes, leBytesToNum_four, leBytesToNum_four, leBytesToNum_four, leBytesToNum_four]
  exact hlimbs

theorem value_clamped (w0 w1 w2 w3 : UInt32) :
    (Uint256.ofLimbs 0 0 0 0 w3 w2 w1 w0).poly1305clamp.value =
      clamp (Limbs.value [w0, w1, w2, w3]) := by
  have hlimbs := value_append_zeros
    [w0 &&& 0x0fffffff, w1 &&& 0x0ffffffc, w2 &&& 0x0ffffffc, w3 &&& 0x0ffffffc] 4
  have hmask : 0x0ffffffc0ffffffc0ffffffc0fffffff =
      Limbs.value [0x0fffffff, 0x0ffffffc, 0x0ffffffc, 0x0ffffffc] := by
    decide
  rw [clamp, hmask]
  refine Eq.trans ?_ (value_zipWith_and ?_)
  · exact hlimbs
  · rfl

theorem value_init_r (key : Vector UInt8 32) : (poly1305Init key).r.value = keyR key := by
  have hbytes : keyR key = clamp (leBytesToNum
      [key[0], key[1], key[2], key[3], key[4], key[5], key[6], key[7],
        key[8], key[9], key[10], key[11], key[12], key[13], key[14], key[15]]) := rfl
  rw [hbytes, leBytesToNum_four, leBytesToNum_four, leBytesToNum_four, leBytesToNum_four,
    poly1305Init, value_clamped, value_cons, value_cons, value_cons, value_cons]
  rfl

theorem value_init_p (key : Vector UInt8 32) : (poly1305Init key).p.value = prime := by
  change Limbs.value [0xfffffffb, 0xffffffff, 0xffffffff, 0xffffffff, 0x3, 0, 0, 0] = prime
  decide

theorem keyR_lt (key : Vector UInt8 32) : keyR key < 2 ^ 124 :=
  Nat.and_le_right.trans_lt (by decide)

theorem keyS_lt (key : Vector UInt8 32) : keyS key < 2 ^ 128 := by
  have hlt := leBytesToNum_lt (List.ofFn fun i : Fin 16 => key[16 + i.val])
  rwa [List.length_ofFn, show 256 ^ 16 = 2 ^ 128 by decide] at hlt

/-! ### A round -/

/-- What holds of the state between two blocks. -/
structure Absorbing (s : Poly1305State) (key : Vector UInt8 32) (a : Nat) : Prop where
  value_r : s.r.value = keyR key
  value_s : s.s.value = keyS key
  value_p : s.p.value = prime
  value_a : s.a.value = a
  reduced : a < prime

theorem prime_pos : 0 < prime := by decide

theorem absorbing_init (key : Vector UInt8 32) : Absorbing (poly1305Init key) key 0 where
  value_r := value_init_r key
  value_s := value_init_s key
  value_p := value_init_p key
  value_a := rfl
  reduced := prime_pos

/-- The sum and the product of a round are below 2^256. -/
theorem round_bounds (key : Vector UInt8 32) {a block : Nat} (ha : a < prime)
    (hblock : block < 2 ^ 129) :
    a + block < modulus ∧ (a + block) * keyR key < modulus := by
  have hprime : prime < 2 ^ 130 := by decide
  have hr := keyR_lt key
  have hsum : a + block < 2 ^ 131 := by omega
  refine ⟨hsum.trans (Nat.pow_lt_pow_right (by omega) (by omega)), ?_⟩
  calc
    (a + block) * keyR key < 2 ^ 131 * 2 ^ 124 := Nat.mul_lt_mul'' hsum hr
    _ < modulus := by decide

theorem value_round {s : Poly1305State} {key : Vector UInt8 32} {a : Nat}
    (hs : Absorbing s key a) {block : Uint256} (hblock : block.value < 2 ^ 129) :
    (s.a.add block).value = a + block.value ∧
      ((s.a.add block).mul s.r).value = (a + block.value) * keyR key := by
  obtain ⟨hsum, hproduct⟩ := round_bounds key hs.reduced hblock
  have hadd : (s.a.add block).value = a + block.value := by
    rw [value_add, hs.value_a, Nat.mod_eq_of_lt hsum]
  refine ⟨hadd, ?_⟩
  rw [value_mul, hadd, hs.value_r, Nat.mod_eq_of_lt hproduct]

theorem absorbing_addBlock {s : Poly1305State} {key : Vector UInt8 32} {a : Nat}
    (hs : Absorbing s key a) {block : Uint256} (hblock : block.value < 2 ^ 129) :
    Absorbing (s.addBlock block) key ((a + block.value) * keyR key % prime) where
  value_r := hs.value_r
  value_s := hs.value_s
  value_p := hs.value_p
  value_a := by
    have hpositive : 0 < s.p.value := hs.value_p ▸ prime_pos
    rw [Poly1305State.addBlock, value_remainder _ _ hpositive, (value_round hs hblock).2,
      hs.value_p]
  reduced := Nat.mod_lt _ prime_pos

/-- A block with its terminating byte. -/
theorem leBytesToNum_block_lt {bytes : List UInt8} (hlength : bytes.length ≤ 16) :
    leBytesToNum (bytes ++ [1]) < 2 ^ 129 := by
  have hbytes := leBytesToNum_lt bytes
  have hpow : 256 ^ bytes.length ≤ 256 ^ 16 := Nat.pow_le_pow_right (by omega) hlength
  rw [leBytesToNum_append, leBytesToNum_singleton]
  change _ + _ * 1 < _
  omega

theorem length_block_le (message : List UInt8) (i : Nat) : (block message i).length ≤ 16 := by
  rw [length_block]
  exact Nat.min_le_left _ _

/-- The loop of `poly1305_add` without padding. -/
theorem absorbing_addBlocks {s : Poly1305State} {key : Vector UInt8 32} {a : Nat}
    (hs : Absorbing s key a) {message : List UInt8} {size : UInt32}
    (hsize : message.length = size.toNat) (blocks : Nat) :
    Absorbing (poly1305AddBlocks s message size false blocks) key
      (absorb (keyR key) a message blocks) := by
  induction blocks with
  | zero => exact hs
  | succ blocks ih =>
      have hvalue := value_messageBlock blocks hsize
      have hsmall := hvalue ▸ leBytesToNum_block_lt (length_block_le message blocks)
      have hround := absorbing_addBlock ih hsmall
      rw [hvalue] at hround
      rw [poly1305AddBlocks, List.range_succ, List.foldl_append]
      exact hround

theorem blocks_toNat {size : UInt32} (hbound : size.toNat < 2 ^ 32 - 15) :
    ((size + 15) / 16).toNat = (size.toNat + 15) / 16 := by
  rw [UInt32.toNat_div, UInt32.toNat_add]
  change (size.toNat + 15) % 2 ^ 32 / 16 = _
  rw [Nat.mod_eq_of_lt (by omega)]

/-! ### The tag -/

theorem finish_byte (x : Uint256) (i : Nat) :
    ((x.b.getD (i / 4) 0 >>> UInt32.ofNat (8 * (i % 4))) &&& 0xff).toUInt8 =
      UInt8.ofNat (x.value / 256 ^ i) := by
  have hdistance : (UInt32.ofNat (8 * (i % 4))).toNat % 32 = 8 * (i % 4) := by
    rw [UInt32.toNat_ofNat']
    omega
  have hpow : 2 ^ (8 * (i % 4)) = 256 ^ (i % 4) := Nat.pow_mul 2 8 (i % 4)
  have hplace : 256 ^ i = radix ^ (i / 4) * 256 ^ (i % 4) := by
    rw [radix_eq_bytes, Nat.div_add_mod]
  apply UInt8.toNat_inj.mp
  rw [UInt32.toNat_toUInt8, UInt32.toNat_and, UInt32.toNat_shiftRight, hdistance,
    Nat.shiftRight_eq_div_pow, hpow, getD_eq_digit, UInt8.toNat_ofNat', hplace,
    ← Nat.div_div_eq_div_mul]
  change (Limbs.value x.b / radix ^ (i / 4) % radix / 256 ^ (i % 4) &&& 2 ^ 8 - 1) % 2 ^ 8 = _
  have hradix : radix = 256 ^ (i % 4) * 256 ^ (4 - i % 4) := by
    rw [← Nat.pow_add, show i % 4 + (4 - i % 4) = 4 by omega]
    decide
  have hdvd : 2 ^ 8 ∣ 256 ^ (4 - i % 4) := dvd_pow_self (2 ^ 8) (by omega)
  rw [Nat.and_two_pow_sub_one_eq_mod, Nat.mod_mod, hradix, Nat.mod_mul_right_div_self,
    Nat.mod_mod_of_dvd _ hdvd]
  rfl

theorem poly1305Finish_eq {s : Poly1305State} {key : Vector UInt8 32} {a : Nat}
    (hs : Absorbing s key a) :
    (poly1305Finish s).1.a.value = a + keyS key ∧
      (poly1305Finish s).2 = numTo16LeBytes (a + keyS key) := by
  have hkey := keyS_lt key
  have hprime : prime < 2 ^ 130 := by decide
  have hroom : a + keyS key < modulus :=
    (show a + keyS key < 2 ^ 131 by have := hs.reduced; omega).trans (by decide)
  have hsum : (s.a.add s.s).value = a + keyS key := by
    rw [value_add, hs.value_a, hs.value_s, Nat.mod_eq_of_lt hroom]
  refine ⟨hsum, ?_⟩
  rw [poly1305Finish, numTo16LeBytes, ← hsum]
  exact congrArg Vector.ofFn (funext fun i => finish_byte _ i.val)

/-- The tag is the one of the standard. Before each block the accumulator is reduced, and the sum, the
product and the shifted divisor of the round are the exact numbers. -/
theorem poly1305Tag_eq_mac (key : Vector UInt8 32) (message : List UInt8) (size : UInt32)
    (hsize : message.length = size.toNat) (hbound : size.toNat < 2 ^ 32 - 15) :
    poly1305Tag key message size = poly1305Mac key message ∧
      (∀ i ≤ blockCount message,
        let s := poly1305AddBlocks (poly1305Init key) message size false i
        s.a.value = absorb (keyR key) 0 message i ∧ s.a.value < prime) ∧
      ∀ i < blockCount message,
        let s := poly1305AddBlocks (poly1305Init key) message size false i
        let block := messageBlock message size false i
        let product := (s.a.add block).mul s.r
        (s.a.add block).value = s.a.value + block.value ∧
          product.value = (s.a.value + block.value) * s.r.value ∧
          ∀ shift : Nat, product.maxNonZeroBit - s.p.maxNonZeroBit = shift →
            (s.p.lshift (UInt32.ofInt (product.maxNonZeroBit - s.p.maxNonZeroBit))).value =
              s.p.value * 2 ^ shift := by
  have hstate := fun i => absorbing_addBlocks (absorbing_init key) hsize i
  have hcount : ((size + 15) / 16).toNat = blockCount message := by
    rw [blocks_toNat hbound, blockCount, hsize]
  refine ⟨?_, fun i _ => ?_, fun i _ => ?_⟩
  · have hfinish := (poly1305Finish_eq (hstate (blockCount message))).2
    rw [poly1305Tag, poly1305Add, hcount, hfinish, poly1305Mac]
  · exact ⟨(hstate i).value_a, (hstate i).value_a ▸ (hstate i).reduced⟩
  · have hvalue := value_messageBlock i hsize
    have hsmall := hvalue ▸ leBytesToNum_block_lt (length_block_le message i)
    obtain ⟨hsum, hproduct⟩ := value_round (hstate i) hsmall
    refine ⟨?_, ?_, fun shift hshift => value_lshift_distance hshift⟩
    · rw [hsum, (hstate i).value_a]
    · rw [hproduct, (hstate i).value_a, (hstate i).value_r]

/-- The key and the message of the example in section 2.5.2 of the standard. -/
def exampleKey : Vector UInt8 32 :=
  #v[0x85, 0xd6, 0xbe, 0x78, 0x57, 0x55, 0x6d, 0x33, 0x7f, 0x44, 0x52, 0xfe, 0x42, 0xd5, 0x06, 0xa8,
    0x01, 0x03, 0x80, 0x8a, 0xfb, 0x0d, 0xb2, 0xfd, 0x4a, 0xbf, 0xf6, 0xaf, 0x41, 0x49, 0xf5, 0x1b]

def exampleMessage : List UInt8 :=
  [0x43, 0x72, 0x79, 0x70, 0x74, 0x6f, 0x67, 0x72, 0x61, 0x70, 0x68, 0x69, 0x63, 0x20, 0x46, 0x6f,
    0x72, 0x75, 0x6d, 0x20, 0x52, 0x65, 0x73, 0x65, 0x61, 0x72, 0x63, 0x68, 0x20, 0x47, 0x72, 0x6f,
    0x75, 0x70]

theorem poly1305Tag_eq_mac_example :
    poly1305Tag exampleKey exampleMessage 34 = poly1305Mac exampleKey exampleMessage ∧
      poly1305Mac exampleKey exampleMessage = #v[0xa8, 0x06, 0x1d, 0xc1, 0x30, 0x51, 0x36, 0xc6,
        0xc2, 0x2b, 0x8b, 0xaf, 0x0c, 0x01, 0x27, 0xa9] :=
  ⟨(poly1305Tag_eq_mac exampleKey exampleMessage 34 rfl (by decide)).1, by decide⟩

end RetroShare.Crypto
