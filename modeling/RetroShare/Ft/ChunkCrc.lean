import RetroShare.Foundation.Traced
import RetroShare.Foundation.Transition
import RetroShare.Ft.FileCreatorRun

/-!
# Checking chunks by their sums

The sums of single chunks that friends ask `ftDataMultiplex` for, and those it has asked sources for.
Everything is about one file: its download, the provider that serves it and the entry of the cache of
sums under its hash. What a peer sends is any 32-bit chunk number.

The accesses that a call makes to the states of the chunks, the sums and the file on disk are traced,
with the number of the chunk; an access outside a vector leaves no outcome.
-/

namespace RetroShare.Ft

open RetroShare.Word

inductive Access
  | chunkState (chunk : Nat)
  | crcMap (chunk : Nat)
  | file (chunk : Nat)

def Access.chunk : Access → Nat
  | chunkState chunk => chunk
  | crcMap chunk => chunk
  | file chunk => chunk

def CompressedChunkMap.set (cmap : CompressedChunkMap) (j : Nat) : Option CompressedChunkMap :=
  (cmap.map[j / 32]?).map fun word => ⟨cmap.map.set (j / 32) (word ||| 2 ^ (j % 32))⟩

/-- `t_CRCMap` -/
structure Sha1Map (Sum : Type) where
  crcs : List Sum
  ccmap : CompressedChunkMap

namespace Sha1Map

variable {Sum : Type}

def new (zero : Sum) (fileSize : Nat) : Sha1Map Sum where
  crcs := List.replicate (numberOfChunks fileSize) zero
  ccmap := ⟨List.replicate
    (CompressedChunkMap.getCompressedSize (wrap 32 (numberOfChunks fileSize))) 0⟩

def empty : Sha1Map Sum := ⟨[], ⟨[]⟩⟩

def size (m : Sha1Map Sum) : Nat := wrap 32 m.crcs.length

def isSet (m : Sha1Map Sum) (i : Nat) : Option Bool := m.ccmap.get? i

def set (m : Sha1Map Sum) (i : Nat) (val : Sum) : Option (Sha1Map Sum) :=
  if i < m.crcs.length then (m.ccmap.set i).map fun ccmap => ⟨m.crcs.set i val, ccmap⟩ else none

end Sha1Map

/-- The index that `operator[](int)` uses for a chunk number of 32 bits. -/
def intIndex (i : Nat) : Nat := if i < 2 ^ 31 then i else i + 2 ^ 64 - 2 ^ 32

/-- `Sha1CacheEntry`, with the last of the received chunks first. -/
structure Sha1CacheEntry (Sum : Type) where
  map : Sha1Map Sum
  received : List Nat
  toAsk : OrderedMap Nat Int

def Sha1CacheEntry.empty {Sum : Type} : Sha1CacheEntry Sum := ⟨.empty, [], ∅⟩

structure CrcExchange (PeerId Sum : Type) [LinearOrder PeerId] where
  client : Option (FileCreator PeerId)
  server : Option Nat
  cached : Option (Sha1CacheEntry Sum)

/-- What the system answers while received sums are checked: whether the partial file opens, which
chunks of it can be read, and their sums. -/
structure VerifyEnv (Sum : Type) where
  opening : OpenOutcome
  readable : Nat → Bool
  computed : Nat → Sum

namespace CrcExchange

variable {PeerId : Type} [LinearOrder PeerId] {Sum : Type}

def maxChecksumCheckPerFile : Nat := 25

def entry (s : CrcExchange PeerId Sum) : Sha1CacheEntry Sum := s.cached.getD .empty

section Operations

variable (zero : Sum) (sha1sum : List UInt8 → Sum)

def recvSingleChunkCRC (s : CrcExchange PeerId Sum) (chunkNumber : Nat) (crc : Sum) :
    Traced Access (Bool × CrcExchange PeerId Sum) :=
  let entry := { s.entry with toAsk := s.entry.toAsk.erase chunkNumber }
  match s.client with
  | none => pure (false, { s with cached := some entry })
  | some client => do
      let map := if entry.map.size = 0 then .new zero client.mSize else entry.map
      let map ← .emit (.crcMap chunkNumber) (map.set chunkNumber crc)
      return (true, { s with
        cached := some { entry with map := map, received := chunkNumber :: entry.received } })

/-- The sum that is in the cache. -/
def cachedSum (map : Sha1Map Sum) (chunkNumber : Nat) : Traced Access (Option Sum) :=
  if map.size > 0 then do
    let isSet ← .emit (.crcMap chunkNumber) (map.isSet chunkNumber)
    if isSet then do
      let crc ← .emit (.crcMap (intIndex chunkNumber)) map.crcs[intIndex chunkNumber]?
      return some crc
    else return none
  else return none

/-- The sum of a chunk of the file, which ends up in the cache. `disk` is the content of the file, if
it can be opened. -/
def computedSum (s : CrcExchange PeerId Sum) (filesize : Nat) (chunkNumber : Nat)
    (disk : Option (List UInt8)) : Traced Access (Option Sum × CrcExchange PeerId Sum) :=
  match disk with
  | none => pure (none, s)
  | some content => do
      let bytes ← .emit (.file chunkNumber) (some
        ((content.drop (chunkNumber * chunkmapFixedChunkSize)).take chunkmapFixedChunkSize))
      if bytes = [] then return (none, s)
      else do
        let map := if s.entry.map.size = 0 then .new zero filesize else s.entry.map
        let map ← .emit (.crcMap chunkNumber) (map.set chunkNumber (sha1sum bytes))
        return (some (sha1sum bytes), { s with cached := some { s.entry with map := map } })

/-- The sum that is sent, if one is. `searched` is the size of the file that a search for the hash
finds when no provider is there. -/
def handleRecvChunkCrcRequest (s : CrcExchange PeerId Sum) (chunkNumber : Nat)
    (searched : Option Nat) (disk : Option (List UInt8)) :
    Traced Access (Option Sum × CrcExchange PeerId Sum) := do
  let s := { s with cached := some s.entry }
  match ← cachedSum s.entry.map chunkNumber with
  | some crc => return (some crc, s)
  | none =>
      let s := { s with server := s.server <|> searched }
      match s.server with
      | none => return (none, s)
      | some filesize => computedSum zero sha1sum s filesize chunkNumber disk

end Operations

/-- `ftFileCreator::verifyChunk`: the file is read and the state of the chunk looked at. -/
def verifyChunk [DecidableEq Sum] (env : VerifyEnv Sum) (client : FileCreator PeerId)
    (chunkNumber : Nat) (sum : Sum) : Traced Access (FileCreator PeerId) where
  trace := if (client.initializeFileAttrs env.opening).isSome then
    [.file chunkNumber, .chunkState chunkNumber] else []
  outcome := client.verifyChunk env.opening chunkNumber (env.readable chunkNumber)
    (env.computed chunkNumber = sum)

/-- The loop of `dispatchReceivedChunkCheckSum` for the file. -/
def verifyReceived [DecidableEq Sum] (env : VerifyEnv Sum) (map : Sha1Map Sum) :
    Nat → FileCreator PeerId → List Nat → Traced Access (FileCreator PeerId × List Nat)
  | 0, client, received => pure (client, received)
  | _ + 1, client, [] => pure (client, [])
  | checks + 1, client, chunkNumber :: received => do
      let isSet ← .emit (.crcMap chunkNumber) (map.isSet chunkNumber)
      if isSet then do
        let sum ← .emit (.crcMap (intIndex chunkNumber)) map.crcs[intIndex chunkNumber]?
        let client ← verifyChunk env client chunkNumber sum
        verifyReceived env map checks client received
      else verifyReceived env map checks client received

/-- Without a download of the file, the entry goes. -/
def dispatchReceivedChunkCheckSum [DecidableEq Sum] (env : VerifyEnv Sum)
    (s : CrcExchange PeerId Sum) : Traced Access (CrcExchange PeerId Sum) :=
  match s.cached, s.client with
  | none, _ => pure s
  | some _, none => pure { s with cached := none }
  | some entry, some client => do
      let (client, received) ← verifyReceived env entry.map maxChecksumCheckPerFile client
        entry.received
      return { s with
        client := some client
        cached := some { entry with received := received } }

end CrcExchange

/-- What happens between two messages to the download and the provider is up to the rest of the
program. -/
inductive CrcOp (PeerId Sum : Type) [LinearOrder PeerId]
  | request (chunkNumber : Word32) (searched : Option Nat) (disk : Option (List UInt8))
  | answer (chunkNumber : Word32) (crc : Sum)
  | dispatch (env : VerifyEnv Sum)
  | download (client : Option (FileCreator PeerId))
  | share (server : Option Nat)

namespace CrcExchange

variable {PeerId : Type} [LinearOrder PeerId] {Sum : Type}

def new : CrcExchange PeerId Sum := ⟨none, none, none⟩

def call [DecidableEq Sum] (zero : Sum) (sha1sum : List UInt8 → Sum) (s : CrcExchange PeerId Sum) :
    CrcOp PeerId Sum → Traced Access (CrcExchange PeerId Sum)
  | .request chunkNumber searched disk => do
      let (_, s) ← s.handleRecvChunkCrcRequest zero sha1sum chunkNumber searched disk
      return s
  | .answer chunkNumber crc => do
      let (_, s) ← s.recvSingleChunkCRC zero chunkNumber crc
      return s
  | .dispatch env => s.dispatchReceivedChunkCheckSum env
  | .download client => pure { s with client := client }
  | .share server => pure { s with server := server }

def step [DecidableEq Sum] (zero : Sum) (sha1sum : List UInt8 → Sum) (s : CrcExchange PeerId Sum)
    (op : CrcOp PeerId Sum) : Option (CrcExchange PeerId Sum) :=
  (s.call zero sha1sum op).outcome

end CrcExchange

end RetroShare.Ft
