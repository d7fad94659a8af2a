import RetroShare.Foundation.KeyExchange
import RetroShare.Foundation.Transition
import RetroShare.GxsTunnel.Service

/-!
# Two ends of one tunnel

The left end asked for the tunnel (`DIRECTION_SERVER`), the right end is the identity it leads to. The
turtle router carries what either end sends in clear to the other, reliably and in order. Encrypted
packets are not carried: an end may be given any such packet at any time.
-/

namespace RetroShare.GxsTunnel

open KeyExchange

variable {Secret : Type}

/-- The keys of identities and the signatures made with them. -/
structure Identities (c : Crypto Secret) where
  key : GxsId → RsaPublicKey
  sign : GxsId → List UInt8 → KeySignature
  keyId_key : ∀ id, (key id).keyId = id
  keyData_key : ∀ id, (key id).keyData ≠ []
  checkPublicKey_key : ∀ id, c.checkPublicKey (key id) = true
  keyId_sign : ∀ id data, (sign id data).keyId = id
  validate_sign : ∀ id data, c.validateSignature data (key id) (sign id data) = true

/-- What an exchange relies on: both ends compute the same number, and items survive the way. -/
structure DiffieHellman (c : Crypto Secret) : Prop where
  computeKey_comm : ∀ a b, c.computeKey a (c.publicKey b) = c.computeKey b (c.publicKey a)
  deserialise_serialise : ∀ item, ∃ bytes, c.serialise (.dhPublicKey item) = some bytes ∧
    c.deserialise bytes = some (.dhPublicKey item)

/-- One tunnel: who is at its ends, which virtual peer each end knows it by, and the random part of the
hash it was asked for with. -/
structure Tunnel where
  identity : Side → GxsId
  peer : Side → VirtualPeerId
  randomBytes : { bytes : List UInt8 // bytes.length = 4 }

def Tunnel.hash (t : Tunnel) : FileHash :=
  randomHashFromDestinationGxsId t.randomBytes (t.identity .right)

/-- How the router names the far end. -/
def direction : Side → Direction
  | .left => .server
  | .right => .client

structure Link (Secret : Type) where
  service : Side → Service Secret
  /-- Clear packets on their way to a side, oldest first. -/
  inFlight : Side → List (List UInt8)

namespace Link

/-- The identities are available, signing works, and OpenSSL generates a key pair. A key that is not in
the keyring yet is taken from the item. -/
structure HonestEnd {c : Crypto Secret} (ids : Identities c) (t : Tunnel) (side : Side)
    (env : Surroundings Secret) : Prop where
  getOwnKey : env.getKey (t.identity side) = some (ids.key (t.identity side))
  getKey : env.getKey (t.identity side.other) = some (ids.key (t.identity side.other)) ∨
    env.getKey (t.identity side.other) = none
  signData : ∀ data, env.signData data (t.identity side) = some (ids.sign (t.identity side) data)
  initDhSessionKey : ∃ secret, env.initDhSessionKey = .key secret

def initial (c : Crypto Secret) (t : Tunnel) (env : Surroundings Secret) (serviceId : Nat) :
    Link Secret :=
  { service := fun
      | .left => Service.initial.requestSecuredTunnel c { env with randomBytes := t.randomBytes }
          (t.identity .right) (t.identity .left) serviceId
      | .right => Service.initial
    inFlight := fun _ => [] }

def setService (link : Link Secret) (side : Side) (s : Service Secret) : Link Secret :=
  { link with service := Function.update link.service side s }

def setInFlight (link : Link Secret) (side : Side) (packets : List (List UInt8)) : Link Secret :=
  { link with inFlight := Function.update link.inFlight side packets }

inductive Op (Secret : Type)
  | addVirtualPeer (side : Side) (env : Surroundings Secret)
  | encrypted (side : Side) (env : Surroundings Secret) (bytes : List UInt8)
  | flush (side : Side) (env : Surroundings Secret)
  | deliver (side : Side) (env : Surroundings Secret)

variable (c : Crypto Secret) (t : Tunnel)

/-- The clear packets among those that the router was given for the tunnel. -/
def clearPackets (side : Side) (s : Service Secret) : List (List UInt8) :=
  (s.sent.filter fun packet =>
    packet.1 = t.peer side ∧ packet.2.take 8 = List.replicate 8 0).map Prod.snd

def step (link : Link Secret) : Op Secret → Option (Link Secret)
  | .addVirtualPeer side env =>
      some (link.setService side
        ((link.service side).addVirtualPeer c env t.hash (t.peer side) (direction side)))
  | .encrypted side env bytes => do
      let s ← (link.service side).receiveTurtleData c env bytes (t.peer side)
      some (link.setService side s)
  | .flush side env =>
      let s := (link.service side).flush c env
      some ((link.setService side { s with sent := [] }).setInFlight side.other
        (link.inFlight side.other ++ clearPackets t side s))
  | .deliver side env =>
      match link.inFlight side with
      | [] => none
      | bytes :: rest => do
          let s ← (link.service side).receiveTurtleData c env bytes (t.peer side)
          some ((link.setService side s).setInFlight side rest)

/-! ### What the claim about a run speaks of -/

def dhStatus (link : Link Secret) (side : Side) : DhStatus :=
  ((link.service side).virtualPeers[t.peer side]?).elim .uninitialized DhInfo.status

/-- The key in the contact that the virtual peer is linked to. -/
def aesKey (link : Link Secret) (side : Side) : Option AesKey := do
  let dhinfo ← (link.service side).virtualPeers[t.peer side]?
  let contact ← (link.service side).contacts[dhinfo.tunnelId]?
  some contact.aesKey

/-- Public keys on their way or waiting to be flushed. -/
def outstanding (link : Link Secret) : Nat :=
  ((link.inFlight .left).length + (link.service .right).pendingDhItems.length) +
    ((link.inFlight .right).length + (link.service .left).pendingDhItems.length)

/-- An encrypted packet that does not open under the key of the contact of the virtual peer. -/
def FailsToOpen (link : Link Secret) (side : Side) (bytes : List UInt8) : Prop :=
  28 ≤ bytes.length ∧ ∃ (dhinfo : DhInfo Secret) (contact : PeerInfo) (iv : Iv),
    iv.1 = bytes.take 8 ∧ (link.service side).virtualPeers[t.peer side]? = some dhinfo ∧
      (link.service side).contacts[dhinfo.tunnelId]? = some contact ∧
        Service.openPacket c contact.aesKey iv bytes = none

/-- A virtual peer on this side leads to an exchange: on the left, if it is for a tunnel that was asked
for and does not work already. -/
def Starts (s : Service Secret) : Side → Prop
  | .left => ∃ entry, s.contacts.toList.find? (·.2.hash = t.hash) = some entry ∧
      entry.2.status ≠ .canTalk
  | .right => True

/-- No more public keys are outstanding than the other end has half a key for; an end without an
exchange takes any number. -/
def Room (link : Link Secret) (side : Side) : Prop :=
  link.dhStatus t side.other = .uninitialized ∨
    link.outstanding ≤ if link.dhStatus t side.other = .halfKeyDone then 1 else 0

variable {c} (ids : Identities c)

/-- What honest ends do: nothing is required but working identities and key generation, and that
encrypted packets fail to open. -/
def Honest (link : Link Secret) : Op Secret → Prop
  | .addVirtualPeer side env => HonestEnd ids t side env
  | .encrypted side env bytes => HonestEnd ids t side env ∧ link.FailsToOpen c t side bytes
  | .flush side env => HonestEnd ids t side env
  | .deliver side env => HonestEnd ids t side env

/-- Exchanges are started, by a virtual peer or a packet that fails to open, only where there is room. -/
def StartsWithRoom (link : Link Secret) : Op Secret → Prop
  | .addVirtualPeer side _ => Starts t (link.service side) side → link.Room t side
  | .encrypted side _ _ => link.Room t side
  | .flush _ _ => True
  | .deliver _ _ => True

/-- With nothing on its way and a key at both ends, the keys are the same. -/
def AgreesAtRest (link : Link Secret) : Prop :=
  link.outstanding = 0 → (∀ side, link.dhStatus t side = .keyAvailable) →
    ∃ key, ∀ side, link.aesKey t side = some key

/-- The outstanding public keys are carried, with nothing else happening; `n` are delivered. -/
inductive Carries : Link Secret → Nat → Link Secret → Prop
  | refl (link : Link Secret) : Carries link 0 link
  | flush {link middle link' : Link Secret} {n : Nat} {side : Side} {env : Surroundings Secret}
      (hcarries : Carries link n middle) (hhonest : HonestEnd ids t side env)
      (hstep : middle.step c t (.flush side env) = some link') : Carries link n link'
  | deliver {link middle link' : Link Secret} {n : Nat} {side : Side} {env : Surroundings Secret}
      (hcarries : Carries link n middle) (hhonest : HonestEnd ids t side env)
      (hstep : middle.step c t (.deliver side env) = some link') : Carries link (n + 1) link'

/-- Carrying what is outstanding ends after finitely many deliveries. -/
def Settles (link : Link Secret) : Prop :=
  ∃ bound, ∀ n link', Carries t ids link n link' → n ≤ bound

end Link

end RetroShare.GxsTunnel
