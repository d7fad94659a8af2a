import RetroShare.Crypto.Uint256

/-!
# The ChaCha20 and Poly1305 code

The authenticator: `poly1305_init`, `poly1305_add`, `poly1305_finish` and `poly1305_tag`, where a message
is the buffer behind the pointer, and its size the number that is passed along with it. Then the block
function, the stream cipher `chacha20_encrypt_rs` and the authenticated encryption
`AEAD_chacha20_poly1305_rs` built from it and the Poly1305 code. Buffers are lists of bytes, changed in
place by returning the new contents.
-/

namespace RetroShare.Crypto

/-! ### Poly1305 -/

structure Poly1305State where
  r : Uint256
  s : Uint256
  p : Uint256
  a : Uint256

def word32 (b0 b1 b2 b3 : UInt8) : UInt32 :=
  b0.toUInt32 + (b1.toUInt32 <<< 8) + (b2.toUInt32 <<< 16) + (b3.toUInt32 <<< 24)

def poly1305Init (key : Vector UInt8 32) : Poly1305State where
  r := (Uint256.ofLimbs 0 0 0 0
    (word32 key[12] key[13] key[14] key[15]) (word32 key[8] key[9] key[10] key[11])
    (word32 key[4] key[5] key[6] key[7]) (word32 key[0] key[1] key[2] key[3])).poly1305clamp
  s := Uint256.ofLimbs 0 0 0 0
    (word32 key[28] key[29] key[30] key[31]) (word32 key[24] key[25] key[26] key[27])
    (word32 key[20] key[21] key[22] key[23]) (word32 key[16] key[17] key[18] key[19])
  p := Uint256.ofLimbs 0 0 0 0x3 0xffffffff 0xffffffff 0xffffffff 0xfffffffb
  a := Uint256.zero

/-- The loop over the bytes of block `i`: the block and the `j` where the loop ended. -/
def fillBlock (message : List UInt8) (size : UInt32) (i : Nat) : Nat → Nat → Uint256 → Uint256 × Nat
  | 0, j, block => (block, j)
  | bytes + 1, j, block =>
      if i * 16 + j < size.toNat then
        fillBlock message size i bytes (j + 1) (block.modify (j / 4) fun limb =>
          (limb.toUInt64 +
            ((message.getD (i * 16 + j) 0).toUInt64 <<< UInt64.ofNat (8 * (j % 4)))).toUInt32)
      else (block, j)

/-- The block with its terminating bit. -/
def messageBlock (message : List UInt8) (size : UInt32) (padTo16Bytes : Bool) (i : Nat) : Uint256 :=
  let (block, j) := fillBlock message size i 16 0 .zero
  if padTo16Bytes then block.modify 4 (· + 0x01)
  else block.modify (j / 4) (· + (0x01 <<< UInt32.ofNat (8 * (j % 4))))

def Poly1305State.addBlock (s : Poly1305State) (block : Uint256) : Poly1305State :=
  { s with a := remainder ((s.a.add block).mul s.r) s.p }

/-- The state after the first blocks of a message. -/
def poly1305AddBlocks (s : Poly1305State) (message : List UInt8) (size : UInt32)
    (padTo16Bytes : Bool) (blocks : Nat) : Poly1305State :=
  (List.range blocks).foldl (fun s i => s.addBlock (messageBlock message size padTo16Bytes i)) s

/-- The number of blocks is computed in 32 bits. -/
def poly1305Add (s : Poly1305State) (message : List UInt8) (size : UInt32) (padTo16Bytes : Bool) :
    Poly1305State :=
  poly1305AddBlocks s message size padTo16Bytes ((size + 15) / 16).toNat

def poly1305Finish (s : Poly1305State) : Poly1305State × Vector UInt8 16 :=
  let s := { s with a := s.a.add s.s }
  (s, Vector.ofFn fun i =>
    ((s.a.b.getD (i.val / 4) 0 >>> UInt32.ofNat (8 * (i.val % 4))) &&& 0xff).toUInt8)

def poly1305Tag (key : Vector UInt8 32) (message : List UInt8) (size : UInt32) :
    Vector UInt8 16 :=
  (poly1305Finish (poly1305Add (poly1305Init key) message size false)).2

/-! ### ChaCha20 -/

/-- `rotl`, with the distance to the right computed as the macro does. -/
def rotl (x n : UInt32) : UInt32 := (x <<< n) ||| (x >>> ((-n) &&& 31))

structure ChaCha20State where
  c : Vector UInt32 16

def ChaCha20State.init (key : Vector UInt8 32) (blockCounter : UInt32) (nonce : Vector UInt8 12) :
    ChaCha20State where
  c := #v[0x61707865, 0x3320646e, 0x79622d32, 0x6b206574,
    word32 key[0] key[1] key[2] key[3], word32 key[4] key[5] key[6] key[7],
    word32 key[8] key[9] key[10] key[11], word32 key[12] key[13] key[14] key[15],
    word32 key[16] key[17] key[18] key[19], word32 key[20] key[21] key[22] key[23],
    word32 key[24] key[25] key[26] key[27], word32 key[28] key[29] key[30] key[31],
    blockCounter,
    word32 nonce[0] nonce[1] nonce[2] nonce[3], word32 nonce[4] nonce[5] nonce[6] nonce[7],
    word32 nonce[8] nonce[9] nonce[10] nonce[11]]

/-- `quarter_round` on four places of the state. -/
def quarterRound (i j k l : Fin 16) (s : ChaCha20State) : ChaCha20State :=
  let a := s.c[i]
  let b := s.c[j]
  let c := s.c[k]
  let d := s.c[l]
  let a := a + b
  let d := rotl (d ^^^ a) 16
  let c := c + d
  let b := rotl (b ^^^ c) 12
  let a := a + b
  let d := rotl (d ^^^ a) 8
  let c := c + d
  let b := rotl (b ^^^ c) 7
  ⟨(((s.c.set i a).set j b).set k c).set l d⟩

def ChaCha20State.add (s t : ChaCha20State) : ChaCha20State := ⟨Vector.zipWith (· + ·) s.c t.c⟩

def doubleRound (s : ChaCha20State) : ChaCha20State :=
  s |> quarterRound 0 4 8 12 |> quarterRound 1 5 9 13 |> quarterRound 2 6 10 14
    |> quarterRound 3 7 11 15 |> quarterRound 0 5 10 15 |> quarterRound 1 6 11 12
    |> quarterRound 2 7 8 13 |> quarterRound 3 4 9 14

def apply20Rounds (s : ChaCha20State) : ChaCha20State :=
  ((List.range 10).foldl (fun s _ => doubleRound s) s).add s

/-- One pass of the loop over the blocks: the bytes of block `i` that the buffer has. -/
def encryptBlock (key : Vector UInt8 32) (blockCounter : UInt32) (nonce : Vector UInt8 12)
    (size : UInt32) (data : List UInt8) (i : Nat) : List UInt8 :=
  let s := apply20Rounds (.init key (blockCounter + UInt32.ofNat i) nonce)
  (List.finRange 64).foldl (fun data k =>
    if k.val + 64 * i < size.toNat then
      data.modify (k.val + 64 * i) (· ^^^
        ((s.c[k.val / 4] >>> UInt32.ofNat (8 * (k.val % 4))) &&& 0xff).toUInt8)
    else data) data

def chacha20Encrypt (key : Vector UInt8 32) (blockCounter : UInt32) (nonce : Vector UInt8 12)
    (data : List UInt8) (size : UInt32) : List UInt8 :=
  (List.range (size / 64 + 1).toNat).foldl (encryptBlock key blockCounter nonce size) data

def poly1305KeyGen (key : Vector UInt8 32) (nonce : Vector UInt8 12) : Vector UInt8 32 :=
  let s := apply20Rounds (.init key 0 nonce)
  Vector.ofFn fun i =>
    ((s.c[i.val / 4] >>> UInt32.ofNat (8 * (i.val % 4))) &&& 0xff).toUInt8

def lengthsVector (aadSize dataSize : UInt32) : List UInt8 :=
  let bytes (size : UInt32) : List UInt8 :=
    (List.range 4).map fun i => ((size >>> UInt32.ofNat (8 * i)) &&& 0xff).toUInt8
  bytes aadSize ++ List.replicate 4 0 ++ bytes dataSize ++ List.replicate 4 0

/-- Additional data, data and lengths, each padded to whole blocks. -/
def aeadTag (sessionKey : Vector UInt8 32) (aad : List UInt8) (aadSize : UInt32)
    (data : List UInt8) (dataSize : UInt32) : Vector UInt8 16 :=
  let pls := poly1305Init sessionKey
  let pls := poly1305Add pls aad aadSize true
  let pls := poly1305Add pls data dataSize true
  let pls := poly1305Add pls (lengthsVector aadSize dataSize) 16 true
  (poly1305Finish pls).2

section Aead

-- `CRYPTO_memcmp`, which the cryptography library provides
variable (memcmp : List UInt8 → List UInt8 → UInt32 → Int)

def constantTimeMemoryCompare (m1 m2 : List UInt8) (size : UInt32) : Bool :=
  memcmp m1 m2 size == 0

/-- The data and the tag afterwards, and the result. -/
def aeadChacha20Poly1305 (key : Vector UInt8 32) (nonce : Vector UInt8 12) (data : List UInt8)
    (dataSize : UInt32) (aad : List UInt8) (aadSize : UInt32) (tag : Vector UInt8 16)
    (encrypt : Bool) : List UInt8 × Vector UInt8 16 × Bool :=
  let sessionKey := poly1305KeyGen key nonce
  if encrypt then
    let data := chacha20Encrypt key 1 nonce data dataSize
    (data, aeadTag sessionKey aad aadSize data dataSize, true)
  else
    let computedTag := aeadTag sessionKey aad aadSize data dataSize
    let data := chacha20Encrypt key 1 nonce data dataSize
    (data, tag, constantTimeMemoryCompare memcmp tag.toList computedTag.toList 16)

end Aead

end RetroShare.Crypto
