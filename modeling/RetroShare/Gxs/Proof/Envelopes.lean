import RetroShare.Gxs.Envelopes

/-!
# Which envelopes are decoded safely

Each read of `decrypt` is compared with the length of the input. The format for several recipients checks
the length once, behind its first four bytes; the format for one recipient never looks whether the vector
is there, and its limit of 512 bytes has nothing to do with the buffer for the session key.
-/

namespace RetroShare.Gxs

open Bytes Util

namespace EnvelopeLibrary

variable (lib : EnvelopeLibrary)

/-- Sealing and opening are right, where this private key belongs to that public key: the key opens,
and whatever opens gives the data back. -/
structure Correct (Belongs : lib.PrivateKey → lib.PublicKey → Prop) : Prop where
  lengths : ∀ seed pubs ek iv session, lib.sealInit seed pubs = some (ek, iv, session) →
    ek.length = pubs.length ∧ iv.length = evpMaxIvLength
  sealed : ∀ session data block, lib.sealData session data = some block → block ≠ []
  opens : ∀ seed pubs ek iv session, lib.sealInit seed pubs = some (ek, iv, session) →
    ∀ entry ∈ pubs.zip ek, ∀ privateKey, Belongs privateKey entry.1 →
      (lib.openInit privateKey entry.2 iv).isSome
  recovers : ∀ seed pubs ek iv session, lib.sealInit seed pubs = some (ek, iv, session) →
    ∀ key ∈ ek, ∀ privateKey opened, lib.openInit privateKey key iv = some opened →
      ∀ data block, lib.sealData session data = some block → lib.openData opened block = some data

variable (input : Memory) (inlen : Nat)

/-- The run stays inside the buffers, and leaves `out` null when it fails. -/
def Safe (run : Traced BufferAccess Decrypted) : Prop :=
  ∃ result, run.Ends (BufferAccess.Inside inlen) result ∧ (result.ret = false → result.out = none)

/-- The length is there, and if it passes the limits the session key has room and the vector is there. -/
def FitsOne (key : RsTlvPrivateRSAKey) : Prop :=
  ∀ privateKey, lib.extractPrivateKey key.keyData = some privateKey →
    rsMalloc (lib.privateSize privateKey) →
      4 ≤ inlen ∧ (¬ LengthRefused (ofBigEndian (slice input 0 4)) inlen →
        ofBigEndian (slice input 0 4) ≤ lib.privateSize privateKey ∧
          4 + ofBigEndian (slice input 0 4) + evpMaxIvLength ≤ inlen)

/-- The format is there, and if it is this one the number of keys is. -/
def FitsAny : Prop :=
  2 ≤ inlen ∧ (ofLowHigh (slice input 0 2) = multiEncryptionHeader → 4 ≤ inlen)

/-! ### One recipient -/

variable {lib input inlen}

theorem safe_failed : Safe inlen (pure failed) :=
  ⟨failed, Traced.ends_pure.mpr rfl, fun _ => rfl⟩

theorem safe_openRest (session : lib.Session) {offset : Nat} (hoffset : offset ≤ inlen) :
    Safe inlen (lib.openRest input inlen session offset) := by
  rw [openRest]
  split
  · exact safe_failed
  · cases hopen : lib.openData session (slice input offset (inlen - offset)) with
    | none =>
        refine ⟨failed, Traced.ends_bind.mpr ⟨_, ends_readInput.mpr ⟨by omega, rfl⟩, ?_⟩, fun _ => rfl⟩
        rw [hopen]
        exact Traced.ends_pure.mpr rfl
    | some plain =>
        refine ⟨⟨true, some plain⟩, Traced.ends_bind.mpr ⟨_, ends_readInput.mpr ⟨by omega, rfl⟩, ?_⟩,
          nofun⟩
        rw [hopen]
        exact Traced.ends_pure.mpr rfl

/-- Reading a piece is safe if it is there and what follows is safe. -/
theorem safe_readInput {start count : Nat} {next : List UInt8 → Traced BufferAccess Decrypted} :
    Safe inlen (readInput input inlen start count >>= next) ↔
      start + count ≤ inlen ∧ Safe inlen (next (slice input start count)) := by
  simp only [Safe, Traced.ends_bind, ends_readInput]
  constructor
  · rintro ⟨result, ⟨bytes, ⟨hinside, rfl⟩, hends⟩, hnull⟩
    exact ⟨hinside, result, hends, hnull⟩
  · rintro ⟨hinside, result, hends, hnull⟩
    exact ⟨result, ⟨_, ⟨hinside, rfl⟩, hends⟩, hnull⟩

theorem safe_writeBuffer {capacity : Nat} {bytes : List UInt8}
    {next : Unit → Traced BufferAccess Decrypted} :
    Safe inlen (writeBuffer capacity bytes >>= next) ↔
      bytes.length ≤ capacity ∧ Safe inlen (next ()) := by
  simp only [Safe, Traced.ends_bind]
  constructor
  · rintro ⟨result, ⟨⟨⟩, hwrite, hends⟩, hnull⟩
    exact ⟨ends_writeBuffer.mp hwrite, result, hends, hnull⟩
  · rintro ⟨hroom, result, hends, hnull⟩
    exact ⟨result, ⟨(), ends_writeBuffer.mpr hroom, hends⟩, hnull⟩

theorem safe_decrypt_iff (key : RsTlvPrivateRSAKey) :
    Safe inlen (lib.decrypt input inlen key) ↔ FitsOne lib input inlen key := by
  rw [decrypt, FitsOne]
  cases hkey : lib.extractPrivateKey key.keyData with
  | none => exact iff_of_true safe_failed nofun
  | some privateKey =>
      dsimp only
      by_cases hmalloc : rsMalloc (lib.privateSize privateKey)
      · rw [if_neg (by simp [hmalloc]), safe_readInput, Nat.zero_add]
        have hone : (∀ other, some privateKey = some other → rsMalloc (lib.privateSize other) →
            4 ≤ inlen ∧ (¬ LengthRefused (ofBigEndian (slice input 0 4)) inlen →
              ofBigEndian (slice input 0 4) ≤ lib.privateSize other ∧
                4 + ofBigEndian (slice input 0 4) + evpMaxIvLength ≤ inlen)) ↔
            4 ≤ inlen ∧ (¬ LengthRefused (ofBigEndian (slice input 0 4)) inlen →
              ofBigEndian (slice input 0 4) ≤ lib.privateSize privateKey ∧
                4 + ofBigEndian (slice input 0 4) + evpMaxIvLength ≤ inlen) := by
          constructor
          · exact fun hall => hall privateKey rfl hmalloc
          · rintro hfits other heq -
            cases heq
            exact hfits
        rw [hone]
        refine and_congr_right fun hlength => ?_
        by_cases hrefused : LengthRefused (ofBigEndian (slice input 0 4)) inlen
        · rw [if_pos hrefused]
          exact iff_of_true safe_failed fun haccepted => absurd hrefused haccepted
        · rw [if_neg hrefused, safe_readInput, safe_writeBuffer, safe_readInput, length_slice]
          constructor
          · rintro ⟨-, hroom, hvector, -⟩ -
            exact ⟨hroom, hvector⟩
          · intro hfits
            obtain ⟨hroom, hvector⟩ := hfits hrefused
            refine ⟨by omega, hroom, hvector, ?_⟩
            split
            · exact safe_failed
            · rw [if_neg (by omega)]
              exact safe_openRest _ hvector
      · rw [if_pos (by simp [hmalloc])]
        refine iff_of_true safe_failed ?_
        rintro other heq hother
        cases heq
        exact absurd hother hmalloc

/-! ### Several recipients -/

variable (lib input) in
/-- What comes of a private key and the encrypted session key of this number. -/
def openInitAt (ivOffset : Nat) (privateKey : lib.PrivateKey) (i : Nat) : Option lib.Session :=
  lib.openInit privateKey (slice input (4 + i * multiEncryptionKeySize) multiEncryptionKeySize)
    (slice input ivOffset evpMaxIvLength)

/-- The first encrypted session key that opens. -/
theorem tryBlocks_ends {ivOffset : Nat} (hvector : ivOffset + evpMaxIvLength ≤ inlen)
    (privateKey : lib.PrivateKey) :
    ∀ blocks : List Nat,
      (∀ i ∈ blocks, 4 + i * multiEncryptionKeySize + multiEncryptionKeySize ≤ inlen) →
        (lib.tryBlocks input inlen ivOffset privateKey blocks).Ends (BufferAccess.Inside inlen)
          (blocks.findSome? (openInitAt lib input ivOffset privateKey))
  | [], _ => Traced.ends_pure.mpr rfl
  | i :: rest, hinside => by
      rw [tryBlocks]
      refine Traced.ends_bind.mpr ⟨_, ends_readInput.mpr ⟨hinside i List.mem_cons_self, rfl⟩, ?_⟩
      refine Traced.ends_bind.mpr ⟨_, ends_readInput.mpr ⟨hvector, rfl⟩, ?_⟩
      rw [List.findSome?_cons, openInitAt]
      split
      · next session hopen =>
          rw [hopen]
          exact Traced.ends_pure.mpr rfl
      · next hopen =>
          rw [hopen]
          exact tryBlocks_ends hvector privateKey rest
            fun j hj => hinside j (List.mem_cons_of_mem _ hj)

variable (lib input) in
/-- What comes of one of the keys, tried on every encrypted session key. -/
def openWith (numberOfKeys ivOffset : Nat) (key : RsTlvPrivateRSAKey) : Option lib.Session := do
  let privateKey ← lib.extractPrivateKey key.keyData
  (List.range numberOfKeys).findSome? (openInitAt lib input ivOffset privateKey)

theorem tryKeys_ends {numberOfKeys ivOffset : Nat} (hvector : ivOffset + evpMaxIvLength ≤ inlen)
    (hoffset : ivOffset = 4 + numberOfKeys * multiEncryptionKeySize) :
    ∀ keys : List RsTlvPrivateRSAKey,
      (lib.tryKeys input inlen numberOfKeys ivOffset keys).Ends (BufferAccess.Inside inlen)
        (keys.findSome? (openWith lib input numberOfKeys ivOffset))
  | [] => Traced.ends_pure.mpr rfl
  | key :: rest => by
      have hinside : ∀ i ∈ List.range numberOfKeys,
          4 + i * multiEncryptionKeySize + multiEncryptionKeySize ≤ inlen := by
        intro i hi
        rw [List.mem_range] at hi
        have hblock := Nat.mul_le_mul_right multiEncryptionKeySize hi
        rw [Nat.succ_mul] at hblock
        omega
      rw [tryKeys, List.findSome?_cons, openWith]
      cases lib.extractPrivateKey key.keyData with
      | none => exact tryKeys_ends hvector hoffset rest
      | some privateKey =>
          refine Traced.ends_bind.mpr ⟨_, tryBlocks_ends hvector privateKey _ hinside, ?_⟩
          rw [Option.bind_eq_bind, Option.bind_some]
          cases (List.range numberOfKeys).findSome? (openInitAt lib input ivOffset privateKey) with
          | none => exact tryKeys_ends hvector hoffset rest
          | some session => exact Traced.ends_pure.mpr rfl

theorem safe_decryptAny_iff (keys : List RsTlvPrivateRSAKey) :
    Safe inlen (lib.decryptAny input inlen keys) ↔ FitsAny input inlen := by
  rw [decryptAny, safe_readInput, FitsAny, Nat.zero_add]
  refine and_congr_right fun hformat => ?_
  by_cases hheader : ofLowHigh (slice input 0 2) = multiEncryptionHeader
  · rw [if_neg (not_not.mpr hheader), safe_readInput]
    refine ⟨fun hsafe _ => hsafe.1, fun hcount => ⟨hcount hheader, ?_⟩⟩
    generalize ofLowHigh (slice input 2 2) = numberOfKeys
    dsimp only
    split
    · exact safe_failed
    next hinside =>
    have hvector : 4 + numberOfKeys * multiEncryptionKeySize + evpMaxIvLength ≤ inlen := by omega
    have hends : (lib.tryKeys input inlen numberOfKeys _ keys).Ends (BufferAccess.Inside inlen) _ :=
      tryKeys_ends hvector rfl keys
    cases hfound : keys.findSome? (openWith lib input numberOfKeys
        (4 + numberOfKeys * multiEncryptionKeySize)) with
    | none =>
        rw [hfound] at hends
        exact ⟨failed, Traced.ends_bind.mpr ⟨none, hends, Traced.ends_pure.mpr rfl⟩, fun _ => rfl⟩
    | some session =>
        rw [hfound] at hends
        obtain ⟨result, hresult, hnull⟩ : Safe inlen (lib.openRest input inlen session _) :=
          safe_openRest session hvector
        exact ⟨result, Traced.ends_bind.mpr ⟨some session, hends, hresult⟩, hnull⟩
  · rw [if_pos hheader]
    exact iff_of_true safe_failed fun hsame => absurd hsame hheader

/-! ### Round trip -/

theorem ofLowHigh_toLowHigh {n : Nat} (hn : n < 65536) : ofLowHigh (toLowHigh n) = n := by
  simp only [ofLowHigh, toLowHigh, List.getD_cons_zero, List.getD_cons_succ, UInt8.toNat_ofNat']
  omega

/-- Of pieces of one size that stand one behind the other, each stands at its multiple. -/
theorem slice_of_flatten {size : Nat} : ∀ {pieces : List (List UInt8)} {offset : Nat},
    Holds input offset pieces.flatten → (∀ piece ∈ pieces, piece.length = size) →
      ∀ (i : Nat) (piece : List UInt8), pieces[i]? = some piece →
        slice input (offset + i * size) size = piece
  | [], _, _, _, i, piece, hpiece => by simp at hpiece
  | first :: rest, offset, hholds, hsize, i, piece, hpiece => by
      rw [List.flatten_cons, holds_append_iff] at hholds
      have hfirst := hsize first List.mem_cons_self
      cases i with
      | zero =>
          obtain rfl : first = piece := by simpa using hpiece
          rw [Nat.zero_mul, Nat.add_zero, ← hfirst]
          exact hholds.1
      | succ i =>
          rw [hfirst] at hholds
          have hrest := slice_of_flatten hholds.2 (fun piece hmem =>
            hsize piece (List.mem_cons_of_mem _ hmem)) i piece (by simpa using hpiece)
          rw [Nat.succ_mul, Nat.add_comm (i * size), ← Nat.add_assoc]
          exact hrest

variable (lib) in
/-- What an envelope is made of. -/
structure Sealed (seed : Nat) (data : List UInt8) (keys : List RsTlvPublicRSAKey)
    (out : List UInt8) where
  pubs : List lib.PublicKey
  ek : List (List UInt8)
  iv : List UInt8
  session : lib.Session
  block : List UInt8
  extracted : keys.mapM (fun key => lib.extractPublicKey key.keyData) = some pubs
  init : lib.sealInit seed pubs = some (ek, iv, session)
  room : out.length ≤ 1024 * 1024 * 1024
  size : ∀ key ∈ ek, key.length = multiEncryptionKeySize
  sealed : lib.sealData session data = some block
  layout : out =
    toLowHigh multiEncryptionHeader ++ toLowHigh keys.length ++ ek.flatten ++ iv ++ block

theorem nonempty_sealed {seed : Nat} {data out : List UInt8} {keys : List RsTlvPublicRSAKey}
    (hencrypt : lib.encrypt seed data keys = some out) : Nonempty (Sealed lib seed data keys out) := by
  rw [encrypt] at hencrypt
  obtain ⟨pubs, hpubs, hencrypt⟩ := Option.bind_eq_some_iff.mp hencrypt
  split at hencrypt
  · cases hencrypt
  obtain ⟨⟨ek, iv, session⟩, hinit, hencrypt⟩ := Option.bind_eq_some_iff.mp hencrypt
  dsimp only at hencrypt
  split at hencrypt
  · cases hencrypt
  next hmalloc =>
  split at hencrypt
  · cases hencrypt
  next hsize =>
  split at hencrypt
  · cases hencrypt
  obtain ⟨block, hblock, hencrypt⟩ := Option.bind_eq_some_iff.mp hencrypt
  split at hencrypt
  · cases hencrypt
  next hroom =>
  refine ⟨⟨pubs, ek, iv, session, block, hpubs, hinit, ?_, ?_, hblock, ?_⟩⟩
  · have hmalloc : rsMalloc (maxOutlen keys.length data.length) = true := by simpa using hmalloc
    rw [rsMalloc, decide_eq_true_eq] at hmalloc
    have hout := Option.some.inj hencrypt
    rw [← hout]
    exact (not_lt.mp hroom).trans hmalloc.2
  · simpa using hsize
  · exact (Option.some.inj hencrypt).symm

theorem forall₂_of_mapM {Key Pub : Type} {extract : Key → Option Pub} :
    ∀ {keys : List Key} {pubs : List Pub}, keys.mapM extract = some pubs →
      List.Forall₂ (fun key pub => extract key = some pub) keys pubs
  | [], pubs, hmap => by
      cases hmap
      exact .nil
  | key :: rest, pubs, hmap => by
      rw [List.mapM_cons] at hmap
      obtain ⟨pub, hpub, hmap⟩ := Option.bind_eq_some_iff.mp hmap
      obtain ⟨others, hothers, hmap⟩ := Option.bind_eq_some_iff.mp hmap
      cases hmap
      exact .cons hpub (forall₂_of_mapM hothers)

variable {Belongs : lib.PrivateKey → lib.PublicKey → Prop} {seed : Nat} {data out : List UInt8}
  {keys : List RsTlvPublicRSAKey} {privateKeys : List RsTlvPrivateRSAKey}

variable (lib Belongs keys privateKeys) in
/-- One of the private keys belongs to one of the recipients. -/
def HasRecipient : Prop :=
  ∃ key ∈ privateKeys, ∃ privateKey, lib.extractPrivateKey key.keyData = some privateKey ∧
    ∃ recipient ∈ keys, ∃ pub, lib.extractPublicKey recipient.keyData = some pub ∧
      Belongs privateKey pub

/-- Where the parts of an envelope stand. -/
structure Stands (input : Memory) (n : Nat) (ek : List (List UInt8)) (iv block : List UInt8) : Prop where
  format : slice input 0 2 = toLowHigh multiEncryptionHeader
  count : slice input 2 2 = toLowHigh n
  keys : ∀ (i : Nat) (key : List UInt8), ek[i]? = some key →
    slice input (4 + i * multiEncryptionKeySize) multiEncryptionKeySize = key
  vector : slice input (4 + n * multiEncryptionKeySize) evpMaxIvLength = iv
  rest : slice input (4 + n * multiEncryptionKeySize + evpMaxIvLength) block.length = block

theorem Sealed.stands (hlib : lib.Correct Belongs) (envelope : Sealed lib seed data keys out)
    (hholds : Holds input 0 out) :
    envelope.ek.length = keys.length ∧
      Stands input keys.length envelope.ek envelope.iv envelope.block ∧
        out.length = 4 + keys.length * multiEncryptionKeySize + evpMaxIvLength +
          envelope.block.length := by
  obtain ⟨hcount, hvector⟩ := hlib.lengths _ _ _ _ _ envelope.init
  have hkeys : envelope.ek.length = keys.length :=
    hcount.trans (forall₂_of_mapM envelope.extracted).length_eq.symm
  have hflatten : envelope.ek.flatten.length = keys.length * multiEncryptionKeySize := by
    rw [List.length_flatten, List.map_congr_left envelope.size, List.map_const', List.sum_replicate,
      hkeys, smul_eq_mul]
  have hlow : ∀ n, (toLowHigh n).length = 2 := fun _ => rfl
  have hlayout := envelope.layout
  rw [hlayout, holds_append_iff, holds_append_iff, holds_append_iff, holds_append_iff] at hholds
  obtain ⟨⟨⟨⟨hformat, hnumber⟩, hek⟩, hiv⟩, hblock⟩ := hholds
  simp only [List.length_append, hlow, hflatten, hvector, Nat.zero_add] at hnumber hek hiv hblock
  refine ⟨hkeys, ⟨hformat, hnumber, ?_, ?_, ?_⟩, ?_⟩
  · exact slice_of_flatten hek envelope.size
  · rw [← hvector]
    exact hiv
  · exact hblock
  · refine (congrArg List.length hlayout).trans ?_
    simp only [List.length_append, hlow, hflatten, hvector]

/-- A private key that belongs to a recipient opens the envelope. -/
theorem openWith_isSome (hlib : lib.Correct Belongs) (envelope : Sealed lib seed data keys out)
    (hkeys : envelope.ek.length = keys.length)
    (hstands : Stands input keys.length envelope.ek envelope.iv envelope.block)
    (hrecipient : HasRecipient lib Belongs keys privateKeys) :
    (privateKeys.findSome? (openWith lib input keys.length
      (4 + keys.length * multiEncryptionKeySize))).isSome := by
  obtain ⟨key, hkey, privateKey, hprivate, recipient, hmem, pub, hpub, hbelongs⟩ := hrecipient
  obtain ⟨i, hi, hat⟩ := List.getElem_of_mem hmem
  have hforall := forall₂_of_mapM envelope.extracted
  have hi' : i < envelope.pubs.length := hforall.length_eq ▸ hi
  have hextracted : lib.extractPublicKey keys[i].keyData = some envelope.pubs[i] :=
    (List.forall₂_iff_get.mp hforall).2 i hi hi'
  rw [hat, hpub, Option.some.injEq] at hextracted
  have hek : i < envelope.ek.length := hkeys ▸ hi
  have hentry : (pub, envelope.ek[i]) ∈ envelope.pubs.zip envelope.ek := by
    rw [hextracted]
    exact List.mem_iff_getElem.mpr ⟨i, by rw [List.length_zip]; omega, List.getElem_zip⟩
  have hopens := hlib.opens _ _ _ _ _ envelope.init _ hentry privateKey hbelongs
  rw [List.findSome?_isSome_iff]
  refine ⟨key, hkey, ?_⟩
  rw [openWith, hprivate, Option.bind_eq_bind, Option.bind_some, List.findSome?_isSome_iff]
  refine ⟨i, List.mem_range.mpr hi, ?_⟩
  rw [openInitAt, hstands.keys i _ (List.getElem?_eq_getElem hek), hstands.vector]
  exact hopens

/-- Whatever opens the envelope gives the data back. -/
theorem openData_of_openWith (hlib : lib.Correct Belongs) (envelope : Sealed lib seed data keys out)
    (hkeys : envelope.ek.length = keys.length)
    (hstands : Stands input keys.length envelope.ek envelope.iv envelope.block)
    {key : RsTlvPrivateRSAKey} {opened : lib.Session}
    (hopened : openWith lib input keys.length (4 + keys.length * multiEncryptionKeySize) key =
      some opened) : lib.openData opened envelope.block = some data := by
  rw [openWith] at hopened
  obtain ⟨privateKey, -, hopened⟩ := Option.bind_eq_some_iff.mp hopened
  obtain ⟨i, hi, hopened⟩ := List.exists_of_findSome?_eq_some hopened
  have hek : i < envelope.ek.length := by
    rw [hkeys]
    exact List.mem_range.mp hi
  rw [openInitAt, hstands.keys i _ (List.getElem?_eq_getElem hek), hstands.vector] at hopened
  exact hlib.recovers _ _ _ _ _ envelope.init _ (List.getElem_mem hek) privateKey opened hopened data
    envelope.block envelope.sealed

theorem decryptAny_of_encrypt (hlib : lib.Correct Belongs)
    (hencrypt : lib.encrypt seed data keys = some out) (hkeys : keys.length ≤ 65535)
    (hrecipient : HasRecipient lib Belongs keys privateKeys) (hholds : Holds input 0 out) :
    (lib.decryptAny input out.length privateKeys).Ends (BufferAccess.Inside out.length)
      ⟨true, some data⟩ := by
  obtain ⟨envelope⟩ := nonempty_sealed hencrypt
  obtain ⟨hcount, hstands, hlength⟩ := envelope.stands hlib hholds
  have hblock : 0 < envelope.block.length :=
    List.length_pos_iff.mpr (hlib.sealed _ _ _ envelope.sealed)
  have hvector : 4 + keys.length * multiEncryptionKeySize + evpMaxIvLength ≤ out.length := by omega
  obtain ⟨opened, hopened⟩ := Option.isSome_iff_exists.mp
    (openWith_isSome hlib envelope hcount hstands hrecipient)
  obtain ⟨key, -, hkey⟩ := List.exists_of_findSome?_eq_some hopened
  have hrest : out.length - (4 + keys.length * multiEncryptionKeySize + evpMaxIvLength) =
      envelope.block.length := by omega
  have hmalloc : rsMalloc envelope.block.length := by
    have hroom := envelope.room
    rw [rsMalloc, decide_eq_true_eq]
    omega
  rw [decryptAny]
  refine Traced.ends_bind.mpr ⟨_, ends_readInput.mpr ⟨by omega, rfl⟩, ?_⟩
  rw [hstands.format, ofLowHigh_toLowHigh (by decide), if_neg (not_not.mpr rfl)]
  refine Traced.ends_bind.mpr ⟨_, ends_readInput.mpr ⟨by omega, rfl⟩, ?_⟩
  rw [hstands.count, ofLowHigh_toLowHigh (by omega)]
  dsimp only
  rw [if_neg (by omega)]
  refine Traced.ends_bind.mpr ⟨_, tryKeys_ends hvector rfl privateKeys, ?_⟩
  rw [hopened]
  dsimp only
  rw [openRest, hrest, if_neg (by simp [hmalloc])]
  refine Traced.ends_bind.mpr ⟨_, ends_readInput.mpr ⟨by omega, rfl⟩, ?_⟩
  rw [hstands.rest, openData_of_openWith hlib envelope hcount hstands hkey]
  exact Traced.ends_pure.mpr rfl

/-! ### Both formats -/

variable (lib Belongs input inlen) in
/-- Both ways to decrypt are safe on the input, and what was encrypted comes back. -/
structure Decodes (key : RsTlvPrivateRSAKey) (keys : List RsTlvPrivateRSAKey) : Prop where
  one : Safe inlen (lib.decrypt input inlen key)
  any : Safe inlen (lib.decryptAny input inlen keys)
  back : ∀ (seed : Nat) (data out : List UInt8) (recipients : List RsTlvPublicRSAKey)
    (memory : Memory), lib.encrypt seed data recipients = some out → recipients.length ≤ 65535 →
      HasRecipient lib Belongs recipients keys → Holds memory 0 out →
        (lib.decryptAny memory out.length keys).Ends (BufferAccess.Inside out.length)
          ⟨true, some data⟩

/-- Keys are bytes, and a session key encrypted for a recipient is 256 times this byte. -/
def sampleEnvelopes : EnvelopeLibrary where
  PublicKey := UInt8
  PrivateKey := UInt8
  Session := Unit
  extractPublicKey keyData := keyData.head?
  extractPrivateKey keyData := keyData.head?
  publicSize _ := 256
  privateSize _ := 256
  sealInit _ pubs := some (pubs.map (List.replicate 256), List.replicate 16 0, ())
  sealData _ data := some (data ++ [1])
  openInit privateKey ek _ := if ek = List.replicate 256 privateKey then some () else none
  openData _ block := some block.dropLast

theorem snd_of_mem_zip_map {pub : UInt8} {key : List UInt8} {make : UInt8 → List UInt8} :
    ∀ {pubs : List UInt8}, (pub, key) ∈ pubs.zip (pubs.map make) → key = make pub
  | first :: rest, hmem => by
      rw [List.map_cons, List.zip_cons_cons, List.mem_cons, Prod.mk.injEq] at hmem
      rcases hmem with ⟨rfl, rfl⟩ | hmem
      · rfl
      · exact snd_of_mem_zip_map hmem

theorem correct_sampleEnvelopes : sampleEnvelopes.Correct Eq where
  lengths := by
    rintro seed pubs ek iv session hinit
    cases hinit
    exact ⟨List.length_map .., List.length_replicate⟩
  sealed := by
    rintro session data block hseal
    cases hseal
    exact List.append_ne_nil_of_right_ne_nil _ (List.cons_ne_nil _ _)
  opens := by
    rintro seed pubs ek iv session hinit ⟨pub, key⟩ hentry privateKey rfl
    cases hinit
    exact congrArg Option.isSome (if_pos (snd_of_mem_zip_map hentry))
  recovers := by
    rintro seed pubs ek iv session - key - privateKey opened - data block hseal
    cases hseal
    exact congrArg some (List.dropLast_concat)

/-- A key that the sample library takes. -/
def sampleKey : RsTlvPrivateRSAKey := ⟨⟨1, keyTypeFull, 0, 0, [7]⟩⟩

/-- A session key of 512 bytes, for a private key whose buffer holds 256. -/
theorem envelopes_counterexample :
    ¬ ∀ (lib : EnvelopeLibrary) (Belongs : lib.PrivateKey → lib.PublicKey → Prop),
      lib.Correct Belongs → ∀ (input : Memory) (inlen : Nat) (key : RsTlvPrivateRSAKey)
        (keys : List RsTlvPrivateRSAKey), Decodes lib input inlen Belongs key keys := by
  intro hall
  have hdecodes := hall sampleEnvelopes Eq correct_sampleEnvelopes (fun i => if i = 2 then 2 else 0)
    600 sampleKey []
  have hfits := safe_decrypt_iff sampleKey |>.mp hdecodes.one
  have hlength : ofBigEndian (slice (fun i => if i = 2 then 2 else 0) 0 4) = 512 := by decide
  rw [FitsOne, hlength] at hfits
  have haccepted : ¬ LengthRefused 512 600 := by
    rw [LengthRefused, toInt, toInt, if_pos (by norm_num), if_pos (by norm_num)]
    norm_num
  exact absurd ((hfits (7 : UInt8) rfl (by decide)).2 haccepted).1 (by decide)

end EnvelopeLibrary

end RetroShare.Gxs
