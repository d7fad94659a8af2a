import RetroShare.Foundation.Word
import RetroShare.Gxs.PublishKeys
import RetroShare.Util.RsMemory

/-!
# Encrypted envelopes

`GxsSecurity` encrypts data under a session key, which goes along encrypted for one recipient or for
several. What the cryptographic library computes is an argument; its contexts are opaque.
-/

namespace RetroShare.Gxs

open Bytes Util

/-- The part of OpenSSL that seals and opens. -/
structure EnvelopeLibrary where
  PublicKey : Type
  PrivateKey : Type
  Session : Type
  extractPublicKey : List UInt8 → Option PublicKey
  extractPrivateKey : List UInt8 → Option PrivateKey
  /-- `EVP_PKEY_size` -/
  publicSize : PublicKey → Nat
  privateSize : PrivateKey → Nat
  /-- `EVP_SealInit`: the session key encrypted for each recipient, and the initialisation vector. -/
  sealInit : Nat → List PublicKey → Option (List (List UInt8) × List UInt8 × Session)
  /-- `EVP_SealUpdate` and `EVP_SealFinal` -/
  sealData : Session → List UInt8 → Option (List UInt8)
  /-- `EVP_OpenInit` -/
  openInit : PrivateKey → List UInt8 → List UInt8 → Option Session
  /-- `EVP_OpenUpdate` and `EVP_OpenFinal` -/
  openData : Session → List UInt8 → Option (List UInt8)

/-- `MULTI_ENCRYPTION_FORMAT_v001_HEADER` -/
def multiEncryptionHeader : Nat := 0xFACE

/-- `MULTI_ENCRYPTION_FORMAT_v001_ENCRYPTED_KEY_SIZE` -/
def multiEncryptionKeySize : Nat := 256

/-- `EVP_MAX_IV_LENGTH` -/
def evpMaxIvLength : Nat := 16

/-- Two bytes, the lower one first. -/
def ofLowHigh (bytes : List UInt8) : Nat := (bytes.getD 0 0).toNat + (bytes.getD 1 0).toNat * 256

def toLowHigh (n : Nat) : List UInt8 := [UInt8.ofNat (n % 256), UInt8.ofNat (n / 256 % 256)]

/-- An unsigned word of 32 bits as an `int`. -/
def toInt (n : Nat) : Int := if n < 2 ^ 31 then n else n - 2 ^ 32

namespace EnvelopeLibrary

variable (lib : EnvelopeLibrary)

/-! ### Encryption -/

/-- Room for the header, the number of keys, the keys, the vector and the padded data. -/
def maxOutlen (keys inlen : Nat) : Nat :=
  Word.wrap 32 (2 + 2 + multiEncryptionKeySize * keys + evpMaxIvLength + (inlen + 16))

/-- `encrypt` for several recipients; `seed` stands for the randomness of the library. A number of 2^31
bytes or more is negative for `EVP_SealUpdate`. -/
def encrypt (seed : Nat) (data : List UInt8) (keys : List RsTlvPublicRSAKey) :
    Option (List UInt8) := do
  let publicKeys ← keys.mapM fun key => lib.extractPublicKey key.keyData
  if publicKeys.any (lib.publicSize · ≠ multiEncryptionKeySize) then none
  else do
    let (ek, iv, session) ← lib.sealInit seed publicKeys
    if !rsMalloc (maxOutlen keys.length data.length) then none
    else if ek.any (·.length ≠ multiEncryptionKeySize) then none
    else if 2 ^ 31 ≤ data.length then none
    else do
      let block ← lib.sealData session data
      let out :=
        toLowHigh multiEncryptionHeader ++ toLowHigh keys.length ++ ek.flatten ++ iv ++ block
      if maxOutlen keys.length data.length < out.length then none else some out

/-! ### Decryption -/

/-- What a call returns, and what it leaves in `out`. -/
structure Decrypted where
  ret : Bool
  out : Option (List UInt8)
  deriving DecidableEq

def failed : Decrypted := ⟨false, none⟩

variable (input : Memory) (inlen : Nat)

/-- The rest of the input, opened into a buffer of its size. -/
def openRest (session : lib.Session) (offset : Nat) : Traced BufferAccess Decrypted :=
  if !rsMalloc (inlen - offset) then return failed
  else do
    let block ← readInput input inlen offset (inlen - offset)
    match lib.openData session block with
    | none => return failed
    | some plain => return ⟨true, some plain⟩

/-- "Conservative limits to detect weird errors due to corrupted encoding." -/
def LengthRefused (eklen inlen : Nat) : Prop :=
  toInt eklen < 0 ∨ 512 < toInt eklen ∨ toInt inlen < toInt eklen + 4

instance (eklen inlen : Nat) : Decidable (LengthRefused eklen inlen) := by
  unfold LengthRefused
  infer_instance

/-- `decrypt` with a single key. -/
def decrypt (key : RsTlvPrivateRSAKey) : Traced BufferAccess Decrypted :=
  match lib.extractPrivateKey key.keyData with
  | none => return failed
  | some privateKey =>
      if !rsMalloc (lib.privateSize privateKey) then return failed
      else do
        let netEkl ← readInput input inlen 0 4
        let eklen := ofBigEndian netEkl
        if LengthRefused eklen inlen then return failed
        let ek ← readInput input inlen 4 eklen
        writeBuffer (lib.privateSize privateKey) ek
        let iv ← readInput input inlen (4 + eklen) evpMaxIvLength
        let inOffset := 4 + eklen + evpMaxIvLength
        match lib.openInit privateKey ek iv with
        | none => return failed
        | some session =>
            if inlen < inOffset then return failed
            lib.openRest input inlen session inOffset

/-- One private key, tried on the encrypted session keys. -/
def tryBlocks (ivOffset : Nat) (privateKey : lib.PrivateKey) :
    List Nat → Traced BufferAccess (Option lib.Session)
  | [] => return none
  | i :: rest => do
      let ek ← readInput input inlen (4 + i * multiEncryptionKeySize) multiEncryptionKeySize
      let iv ← readInput input inlen ivOffset evpMaxIvLength
      match lib.openInit privateKey ek iv with
      | some session => return some session
      | none => tryBlocks ivOffset privateKey rest

def tryKeys (numberOfKeys ivOffset : Nat) :
    List RsTlvPrivateRSAKey → Traced BufferAccess (Option lib.Session)
  | [] => return none
  | key :: rest =>
      match lib.extractPrivateKey key.keyData with
      | none => tryKeys numberOfKeys ivOffset rest
      | some privateKey => do
          match ← lib.tryBlocks input inlen ivOffset privateKey (List.range numberOfKeys) with
          | some session => return some session
          | none => tryKeys numberOfKeys ivOffset rest

/-- `decrypt` with several keys; an exception ends in `failed`. -/
def decryptAny (keys : List RsTlvPrivateRSAKey) : Traced BufferAccess Decrypted := do
  let formatId ← readInput input inlen 0 2
  if ofLowHigh formatId ≠ multiEncryptionHeader then return failed
  let count ← readInput input inlen 2 2
  let numberOfKeys := ofLowHigh count
  let ivOffset := 4 + numberOfKeys * multiEncryptionKeySize
  let encryptedBlockOffset := ivOffset + evpMaxIvLength
  if inlen ≤ encryptedBlockOffset then return failed
  match ← lib.tryKeys input inlen numberOfKeys ivOffset keys with
  | none => return failed
  | some session => lib.openRest input inlen session encryptedBlockOffset

end EnvelopeLibrary

end RetroShare.Gxs
