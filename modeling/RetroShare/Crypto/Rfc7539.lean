import Mathlib.Tactic
import Mathlib.Data.Nat.Digits.Lemmas

/-!
# The authenticator of RFC 7539

The one-time authenticator of section 2.5 over natural numbers, and the input that the authenticated
encryption of section 2.8 gives to it.
-/

namespace RetroShare.Rfc7539

def leBytesToNum (bytes : List UInt8) : Nat := Nat.ofDigits 256 (bytes.map UInt8.toNat)

def numTo16LeBytes (n : Nat) : Vector UInt8 16 :=
  Vector.ofFn fun i => UInt8.ofNat (n / 256 ^ i.val)

def prime : Nat := 2 ^ 130 - 5

def clamp (r : Nat) : Nat := r &&& 0x0ffffffc0ffffffc0ffffffc0fffffff

def keyR (key : Vector UInt8 32) : Nat :=
  clamp (leBytesToNum (List.ofFn fun i : Fin 16 => key[i.val]))

def keyS (key : Vector UInt8 32) : Nat :=
  leBytesToNum (List.ofFn fun i : Fin 16 => key[16 + i.val])

/-- Sixteen bytes of the message, fewer at its end. -/
def block (message : List UInt8) (i : Nat) : List UInt8 := (message.drop (16 * i)).take 16

/-- The accumulator after the first blocks of the message. -/
def absorb (r a : Nat) (message : List UInt8) : Nat → Nat
  | 0 => a
  | i + 1 => (absorb r a message i + leBytesToNum (block message i ++ [1])) * r % prime

def blockCount (message : List UInt8) : Nat := (message.length + 15) / 16

def poly1305Mac (key : Vector UInt8 32) (message : List UInt8) : Vector UInt8 16 :=
  numTo16LeBytes (absorb (keyR key) 0 message (blockCount message) + keyS key)

/-- The message with as many zeros as fill its last block. -/
def pad16 (message : List UInt8) : List UInt8 :=
  message ++ List.replicate (16 * blockCount message - message.length) 0

def le64 (n : Nat) : List UInt8 := List.ofFn fun i : Fin 8 => UInt8.ofNat (n / 256 ^ i.val)

def macData (aad ciphertext : List UInt8) : List UInt8 :=
  pad16 aad ++ pad16 ciphertext ++ le64 aad.length ++ le64 ciphertext.length

end RetroShare.Rfc7539
