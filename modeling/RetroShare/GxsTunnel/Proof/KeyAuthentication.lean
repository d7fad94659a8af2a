import RetroShare.Foundation.Transition
import RetroShare.GxsTunnel.Proof.Frames

/-!
# Tunnel keys are authenticated

The key of a contact is all zero until an exchange agrees on one, and only a signed public key leads
to an agreement. What a packet can do is decided by the key it opens under: the only way to raise a
contact that has no agreed key is a packet that opens under the all-zero one.
-/

namespace RetroShare.GxsTunnel

open Transition

variable {Secret : Type}

/-- The key that an item was encrypted or a packet was opened with, and the identity it was for. -/
def Event.keyUse : Event → Option (GxsId × AesKey)
  | .encrypted _ toGxsId key _ => some (toGxsId, key)
  | .decrypted _ toGxsId key _ => some (toGxsId, key)
  | _ => none

namespace Service

section Authentication

variable (c : Crypto Secret)

/-- The key comes from a public key whose signature by that identity was verified. -/
def Authenticated (events : List Event) (toGxsId : GxsId) (key : AesKey) : Prop :=
  ∃ item rsaKey secret, Event.verified item rsaKey ∈ events ∧ item.signature.keyId = toGxsId ∧
    c.validateSignature (bn2bin item.publicKey) rsaKey item.signature = true ∧
    (c.computeKey secret item.publicKey).length = c.dhSize ∧
    key = firstSixteen (c.sha1sum (c.computeKey secret item.publicKey))

/-- Contacts that can talk, packets sent and packets opened all use authenticated keys. -/
structure KeysAuthenticated (s : Service Secret) : Prop where
  canTalk : ∀ (tunnel : TunnelId) (contact : PeerInfo), s.contacts[tunnel]? = some contact →
    contact.status = .canTalk → Authenticated c s.events contact.toGxsId contact.aesKey
  used : ∀ event ∈ s.events, ∀ toGxsId key, event.keyUse = some (toGxsId, key) →
    Authenticated c s.events toGxsId key

/-- The packet opens under the all-zero key of a contact that its virtual peer is linked to. -/
def OpensUnagreed (s : Service Secret) : Op Secret → Prop
  | .receiveTurtleData _ bytes peer =>
      ∃ (dhinfo : DhInfo Secret) (contact : PeerInfo) (iv : Iv),
        s.virtualPeers[peer]? = some dhinfo ∧ s.contacts[dhinfo.tunnelId]? = some contact ∧
          contact.aesKey = zeros ∧ iv.1 = bytes.take 8 ∧ openPacket c zeros iv bytes ≠ none
  | _ => False

/-! ### What a contact may hold -/

structure ContactSound (events : List Event) (contact : PeerInfo) : Prop where
  key : contact.aesKey = zeros ∨ Authenticated c events contact.toGxsId contact.aesKey
  talk : contact.status = .canTalk → Authenticated c events contact.toGxsId contact.aesKey

/-- The invariant, over the two parts of the state it is about. -/
structure KeysSound (contacts : OrderedMap TunnelId PeerInfo) (events : List Event) : Prop where
  contact : ∀ (tunnel : TunnelId) (contact : PeerInfo), contacts[tunnel]? = some contact →
    ContactSound c events contact
  used : ∀ event ∈ events, ∀ toGxsId key, event.keyUse = some (toGxsId, key) →
    Authenticated c events toGxsId key

variable {c} {contacts : OrderedMap TunnelId PeerInfo} {events events' : List Event}
  {contact : PeerInfo} {tunnel : TunnelId} {toGxsId : GxsId} {key : AesKey}

theorem Authenticated.mono (hauth : Authenticated c events toGxsId key)
    (hsub : ∀ event ∈ events, event ∈ events') : Authenticated c events' toGxsId key := by
  obtain ⟨item, rsaKey, secret, hverified, hrest⟩ := hauth
  exact ⟨item, rsaKey, secret, hsub _ hverified, hrest⟩

theorem ContactSound.mono (hsound : ContactSound c events contact)
    (hsub : ∀ event ∈ events, event ∈ events') : ContactSound c events' contact where
  key := hsound.key.imp_right fun hauth => hauth.mono hsub
  talk := fun htalk => (hsound.talk htalk).mono hsub

/-- A change that keeps the key and the identity and does not raise the contact. -/
theorem ContactSound.update {contact' : PeerInfo} (hsound : ContactSound c events contact)
    (hkey : contact'.aesKey = contact.aesKey) (hto : contact'.toGxsId = contact.toGxsId)
    (hstatus : contact'.status = .canTalk → contact.status = .canTalk) :
    ContactSound c events contact' where
  key := by
    rw [hkey, hto]
    exact hsound.key
  talk := fun htalk => by
    rw [hkey, hto]
    exact hsound.talk (hstatus htalk)

theorem KeysSound.insert (hsound : KeysSound c contacts events)
    (hcontact : ContactSound c events contact) :
    KeysSound c (contacts.insert tunnel contact) events where
  contact := fun other info hlookup => by
    rw [OrderedMap.lookup_insert] at hlookup
    split at hlookup
    · cases hlookup
      exact hcontact
    · exact hsound.contact other info hlookup
  used := hsound.used

theorem KeysSound.erase (hsound : KeysSound c contacts events) :
    KeysSound c (contacts.erase tunnel) events where
  contact := fun other info hlookup => by
    rw [OrderedMap.lookup_erase] at hlookup
    split at hlookup
    · cases hlookup
    · exact hsound.contact other info hlookup
  used := hsound.used

theorem KeysSound.append (hsound : KeysSound c contacts events) (new : List Event)
    (hnew : ∀ event ∈ new, ∀ toGxsId key, event.keyUse = some (toGxsId, key) →
      Authenticated c (events ++ new) toGxsId key) :
    KeysSound c contacts (events ++ new) where
  contact := fun tunnel contact hlookup =>
    (hsound.contact tunnel contact hlookup).mono fun _ => List.mem_append_left new
  used := fun event hmem toGxsId key huse => by
    rcases List.mem_append.mp hmem with hold | hmem
    · exact (hsound.used event hold toGxsId key huse).mono fun _ => List.mem_append_left new
    · exact hnew event hmem toGxsId key huse

/-- Events that use no key say nothing. -/
theorem KeysSound.append_unused (hsound : KeysSound c contacts events) (new : List Event)
    (hnew : ∀ event ∈ new, event.keyUse = none) : KeysSound c contacts (events ++ new) :=
  hsound.append new fun event hmem toGxsId key huse => by
    rw [hnew event hmem] at huse
    cases huse

theorem KeysSound.notify {s : Service Secret} {notifications : List TunnelStatus}
    (hsound : KeysSound c s.contacts s.events) :
    KeysSound c (s.notify tunnel contact notifications).contacts
      (s.notify tunnel contact notifications).events := by
  apply hsound.append_unused
  intro event hmem
  obtain ⟨service, -, hmem⟩ := List.mem_flatMap.mp hmem
  obtain ⟨status, -, rfl⟩ := List.mem_map.mp hmem
  rfl

theorem contact_find {hash : FileHash} {entry : TunnelId × PeerInfo}
    (hfind : contacts.toList.find? (·.2.hash = hash) = some entry) :
    contacts[entry.1]? = some entry.2 :=
  (OrderedMap.mem_toList contacts).mp (List.mem_of_find?_eq_some hfind)

theorem contactSound_empty : ContactSound c events .empty where
  key := .inl rfl
  talk := nofun

theorem contactSound_getD (hsound : KeysSound c contacts events) :
    ContactSound c events (contacts[tunnel]?.getD .empty) := by
  cases hlookup : contacts[tunnel]? with
  | none => exact contactSound_empty
  | some contact => exact hsound.contact tunnel contact hlookup

/-! ### Key agreement -/

section Functions

variable {env : Surroundings Secret} {s s' : Service Secret}

/-- The contact that an agreement leaves has the key of the item that was just verified. -/
theorem agreeOnKey_sound {peer : VirtualPeerId} {item : DhPublicKeyItem} {rsaKey : RsaPublicKey}
    (hsound : KeysSound c s.contacts s.events) (hverified : Event.verified item rsaKey ∈ s.events)
    (hvalid : c.validateSignature (bn2bin item.publicKey) rsaKey item.signature = true)
    (hagree : s.agreeOnKey c env peer item = some s') : KeysSound c s'.contacts s'.events := by
  unfold agreeOnKey at hagree
  split at hagree
  · cases hagree
  · next dhinfo _ =>
      dsimp only at hagree
      split at hagree
      · cases hagree
      · cases hagree
        exact hsound
      · next secret _ =>
          split at hagree
          · cases hagree
            exact hsound
          · next hsize =>
              cases hagree
              have hauth : Authenticated c s.events item.signature.keyId
                  (firstSixteen (c.sha1sum (c.computeKey secret item.publicKey))) :=
                ⟨item, rsaKey, secret, hverified, rfl, hvalid, not_not.mp hsize, rfl⟩
              exact hsound.insert ⟨.inr hauth, fun _ => hauth⟩

theorem handleRecvDhPublicKey_sound {peer : VirtualPeerId} {item : DhPublicKeyItem}
    (hsound : KeysSound c s.contacts s.events)
    (hrecv : s.handleRecvDhPublicKey c env peer item = some s') :
    KeysSound c s'.contacts s'.events := by
  unfold handleRecvDhPublicKey at hrecv
  split at hrecv
  · cases hrecv
    exact hsound
  · next dhinfo _ =>
      split at hrecv
      · cases hrecv
        exact hsound
      · next rsaKey _ =>
          split at hrecv
          · cases hrecv
            exact hsound
          · next hvalid =>
              have hrecorded : KeysSound c (s.record [.verified item rsaKey]).contacts
                  (s.record [.verified item rsaKey]).events :=
                hsound.append_unused _ (by simp [Event.keyUse])
              have hverified : Event.verified item rsaKey ∈
                  (s.record [.verified item rsaKey]).events := by simp [record]
              dsimp only at hrecv
              split at hrecv
              · cases hrecv
                exact hrecorded
              · apply agreeOnKey_sound ?_ ?_ (not_not.mp hvalid) hrecv
                · split
                  · simpa using hrecorded
                  · exact hrecorded
                · split
                  · simpa using hverified
                  · exact hverified

/-! ### Sending -/

theorem sendEncryptedTunnelData_sound (env : Surroundings Secret) (hsound : KeysSound c s.contacts s.events)
    (tunnel : TunnelId) (item : Item) :
    KeysSound c (s.sendEncryptedTunnelData c env tunnel item).2.contacts
      (s.sendEncryptedTunnelData c env tunnel item).2.events := by
  rcases sendEncryptedTunnelData_cases c env s tunnel item with
    heq | ⟨contact, bytes, hlookup, htalk, -, heq⟩
  · rw [heq]
    exact hsound
  · rw [heq]
    have hauth := (hsound.contact tunnel contact hlookup).talk htalk
    apply hsound.append
    intro event hmem toGxsId key huse
    rw [List.mem_singleton.mp hmem] at huse
    cases huse
    exact hauth.mono fun _ => List.mem_append_left _

theorem flushItems_sound (env : Surroundings Secret) (hsound : KeysSound c s.contacts s.events) :
    KeysSound c (s.flushItems c env).contacts (s.flushItems c env).events := by
  unfold flushItems
  apply List.foldlRecOn (motive := fun s' : Service Secret => KeysSound c s'.contacts s'.events)
  · exact hsound
  · intro s' hsound' entry _
    have hsent := sendEncryptedTunnelData_sound env hsound' entry.1 entry.2
    unfold flushItem
    split
    · next heq => rwa [heq] at hsent
    · next heq => rwa [heq] at hsent

theorem flushDataItems_sound (env : Surroundings Secret) (hsound : KeysSound c s.contacts s.events) :
    KeysSound c (s.flushDataItems c env).contacts (s.flushDataItems c env).events := by
  unfold flushDataItems
  apply List.foldlRecOn (motive := fun s' : Service Secret => KeysSound c s'.contacts s'.events)
  · exact hsound
  · intro s' hsound' entry _
    have hsent := sendEncryptedTunnelData_sound env hsound' entry.2.peerId entry.2.item
    unfold resendDataItem
    split
    · split
      · next heq => rwa [heq] at hsent
      · next heq => rwa [heq] at hsent
    · exact hsound'

theorem ContactSound.keepsAgreement {contact' : PeerInfo} (hsound : ContactSound c events contact)
    (hkeeps : KeepsAgreement contact contact') : ContactSound c events contact' :=
  hsound.update hkeeps.aesKey hkeeps.toGxsId fun htalk => by
    rcases hkeeps.status with hsame | hdown
    · rwa [← hsame]
    · rw [hdown] at htalk
      cases htalk

/-- A pass over a contact that was sound when the loop began. -/
theorem flushContact_sound (env : Surroundings Secret) (tunnel : TunnelId)
    (hsound : KeysSound c s.contacts s.events)
    (hcontact : ContactSound c s.events contact) :
    KeysSound c (s.flushContact env (tunnel, contact)).contacts
        (s.flushContact env (tunnel, contact)).events ∧
      ∀ event ∈ s.events, event ∈ (s.flushContact env (tunnel, contact)).events := by
  rcases flushContact_cases env s tunnel contact with
    ⟨-, heq⟩ | ⟨contact', items, hashes, hkeeps, -, heq⟩
  · rw [heq]
    exact ⟨hsound.erase, fun _ => id⟩
  · rw [heq]
    refine ⟨?_, fun _ => List.mem_append_left _⟩
    exact (hsound.insert (hcontact.keepsAgreement hkeeps)).append_unused _ fun event hmem => by
      obtain ⟨hash, -, rfl⟩ := List.mem_map.mp hmem
      rfl

theorem flush_sound (hsound : KeysSound c s.contacts s.events) :
    KeysSound c (s.flush c env).contacts (s.flush c env).events := by
  have hdh : KeysSound c (s.flushDhItems c).contacts (s.flushDhItems c).events := by
    simpa using hsound
  have hsent := flushDataItems_sound env (flushItems_sound env hdh)
  unfold flush
  dsimp only
  generalize flushDataItems c env (flushItems c env (flushDhItems c s)) = sending at hsent
  have hloop : KeysSound c (sending.contacts.toList.foldl (flushContact env) sending).contacts
        (sending.contacts.toList.foldl (flushContact env) sending).events ∧
      ∀ event ∈ sending.events,
        event ∈ (sending.contacts.toList.foldl (flushContact env) sending).events := by
    apply List.foldlRecOn (motive := fun s' : Service Secret =>
      KeysSound c s'.contacts s'.events ∧ ∀ event ∈ sending.events, event ∈ s'.events)
    · exact ⟨hsent, fun _ => id⟩
    · rintro s' ⟨hsound', hsub⟩ ⟨tunnel, contact⟩ hmem
      have hlookup := (OrderedMap.mem_toList sending.contacts).mp hmem
      have hpass := flushContact_sound env tunnel hsound'
        ((hsent.contact tunnel contact hlookup).mono hsub)
      exact ⟨hpass.1, fun event hevent => hpass.2 event (hsub event hevent)⟩
  exact hloop.1

/-! ### Incoming packets -/

theorem handleRecvTunnelDataItem_sound {uniqueItemCounter serviceId : Nat} {data : List UInt8}
    (hsound : KeysSound c s.contacts s.events)
    (hrecv : s.handleRecvTunnelDataItem env tunnel uniqueItemCounter serviceId data = some s') :
    KeysSound c s'.contacts s'.events := by
  unfold handleRecvTunnelDataItem at hrecv
  dsimp only at hrecv
  split at hrecv
  · cases hrecv
    exact hsound
  · split at hrecv
    · cases hrecv
    · next contact hlookup =>
        have hcontact : ContactSound c s.events contact := hsound.contact tunnel contact hlookup
        split at hrecv
        · cases hrecv
          exact hsound.insert (hcontact.update rfl rfl id)
        · split at hrecv
          · cases hrecv
            apply KeysSound.append_unused
            · exact hsound.insert (hcontact.update rfl rfl id)
            · simp [Event.keyUse]
          · cases hrecv
            exact hsound.insert (hcontact.update rfl rfl id)

theorem handleRecvStatusItem_sound {status : Nat} (hsound : KeysSound c s.contacts s.events)
    (hrecv : s.handleRecvStatusItem tunnel status = some s') :
    KeysSound c s'.contacts s'.events := by
  unfold handleRecvStatusItem at hrecv
  split at hrecv
  · split at hrecv
    · cases hrecv
      exact hsound
    · next contact hlookup =>
        cases hrecv
        apply KeysSound.notify
        apply hsound.insert
        refine (hsound.contact tunnel contact hlookup).update rfl rfl fun htalk => ?_
        dsimp only at htalk
        split at htalk <;> cases htalk
  · split at hrecv
    · split at hrecv
      · cases hrecv
      · cases hrecv
        exact hsound.notify
    · cases hrecv
      exact hsound

theorem handleIncomingItem_sound {item : Item} (hsound : KeysSound c s.contacts s.events)
    (hrecv : s.handleIncomingItem env tunnel item = some s') : KeysSound c s'.contacts s'.events := by
  cases item with
  | data uniqueItemCounter flags serviceId data =>
      exact handleRecvTunnelDataItem_sound hsound hrecv
  | dhPublicKey item =>
      cases hrecv
      exact hsound
  | status status => exact handleRecvStatusItem_sound hsound hrecv
  | dataAck uniqueItemCounter =>
      cases hrecv
      exact hsound

/-- A packet that opens does so under an authenticated key, unless it opens under the all-zero one. -/
theorem handleEncryptedData_sound {iv : Iv} {bytes : List UInt8} {peer : VirtualPeerId}
    (hsound : KeysSound c s.contacts s.events)
    (hzero : ∀ (dhinfo : DhInfo Secret) (contact : PeerInfo), s.virtualPeers[peer]? = some dhinfo →
      s.contacts[dhinfo.tunnelId]? = some contact → contact.aesKey = zeros →
        openPacket c zeros iv bytes = none)
    (hrecv : s.handleEncryptedData c env iv bytes peer = some s') :
    KeysSound c s'.contacts s'.events := by
  unfold handleEncryptedData at hrecv
  split at hrecv
  · cases hrecv
    exact hsound
  · next dhinfo hpeer =>
      split at hrecv
      · cases hrecv
        exact hsound
      · next contact hlookup =>
          have hcontact := hsound.contact _ contact hlookup
          by_cases hshort : bytes.length < 13
          · rw [if_pos hshort] at hrecv
            cases hrecv
            exact hsound
          rw [if_neg hshort] at hrecv
          split at hrecv
          · cases hrecv
          · split at hrecv
            · cases hrecv
              simpa using hsound
            · next data hopen =>
                have hauth : Authenticated c s.events contact.toGxsId contact.aesKey := by
                  rcases hcontact.key with hkey | hauth
                  · have hclosed := hzero dhinfo contact hpeer hlookup hkey
                    rw [hkey, hclosed] at hopen
                    cases hopen
                  · exact hauth
                have hraised : KeysSound c
                    (s.contacts.insert dhinfo.tunnelId
                      { contact with status := .canTalk, lastContact := env.now })
                    (s.events ++ [.decrypted dhinfo.tunnelId contact.toGxsId contact.aesKey data]) := by
                  apply KeysSound.append
                  · exact hsound.insert ⟨.inr hauth, fun _ => hauth⟩
                  · intro event hmem toGxsId key huse
                    rw [List.mem_singleton.mp hmem] at huse
                    cases huse
                    exact hauth.mono fun _ => List.mem_append_left _
                dsimp only at hrecv
                split at hrecv
                · cases hrecv
                  exact hraised
                · exact handleIncomingItem_sound hraised hrecv

theorem receiveTurtleData_sound {bytes : List UInt8} {peer : VirtualPeerId}
    (hsound : KeysSound c s.contacts s.events)
    (hagreed : ¬ OpensUnagreed c s (.receiveTurtleData env bytes peer))
    (hrecv : s.receiveTurtleData c env bytes peer = some s') :
    KeysSound c s'.contacts s'.events := by
  unfold receiveTurtleData at hrecv
  split at hrecv
  · cases hrecv
    exact hsound
  · split at hrecv
    · apply handleEncryptedData_sound hsound ?_ hrecv
      intro dhinfo contact hpeer hlookup hkey
      by_contra hopen
      exact hagreed ⟨dhinfo, contact, _, hpeer, hlookup, hkey, rfl, hopen⟩
    · split at hrecv
      · exact handleRecvDhPublicKey_sound hsound hrecv
      · cases hrecv
        exact hsound

/-! ### Calls -/

theorem removeVirtualPeer_sound (hsound : KeysSound c s.contacts s.events) (peer : VirtualPeerId) :
    KeysSound c (s.removeVirtualPeer peer).contacts (s.removeVirtualPeer peer).events := by
  unfold removeVirtualPeer
  split
  · exact hsound
  · next dhinfo _ =>
      dsimp only
      split
      · exact hsound
      · next contact hlookup =>
          split
          · apply KeysSound.notify
            refine hsound.insert ((hsound.contact _ contact hlookup).update rfl rfl fun hdown => ?_)
            cases hdown
          · exact hsound

theorem requestSecuredTunnel_sound (hsound : KeysSound c s.contacts s.events)
    (toGxsId fromGxsId : GxsId) (serviceId : Nat) :
    KeysSound c (s.requestSecuredTunnel c env toGxsId fromGxsId serviceId).contacts
      (s.requestSecuredTunnel c env toGxsId fromGxsId serviceId).events := by
  unfold requestSecuredTunnel startClientGxsTunnelConnection
  split
  · dsimp only
    split
    · exact hsound
    · refine (hsound.insert ⟨.inl rfl, fun htalk => ?_⟩).append_unused _ (by simp [Event.keyUse])
      cases htalk
  · exact hsound

theorem closeExistingTunnel_sound (hsound : KeysSound c s.contacts s.events) (serviceId : Nat) :
    KeysSound c (s.closeExistingTunnel c env tunnel serviceId).contacts
      (s.closeExistingTunnel c env tunnel serviceId).events := by
  unfold closeExistingTunnel
  split
  · exact hsound
  · next contact hlookup =>
      dsimp only
      split
      · exact hsound
      · have hfewer : KeysSound c
            (s.setContact tunnel
              { contact with clientServices := contact.clientServices.erase serviceId }).contacts
            s.events :=
          hsound.insert ((hsound.contact tunnel contact hlookup).update rfl rfl id)
        split
        · exact hfewer
        · have hsent := sendEncryptedTunnelData_sound env (s := s.setContact tunnel
            { contact with clientServices := contact.clientServices.erase serviceId }) hfewer tunnel
            (.status flagClosingDistantConnection)
          split
          · exact (hsent.append_unused _ (by simp [Event.keyUse])).erase
          · exact hsent.erase

theorem step_sound {op : Op Secret} (hsound : KeysSound c s.contacts s.events)
    (hagreed : ¬ OpensUnagreed c s op) (hstep : s.step c op = some s') :
    KeysSound c s'.contacts s'.events := by
  cases op with
  | registerClientService serviceId =>
      cases hstep
      exact hsound
  | requestSecuredTunnel env toGxsId fromGxsId serviceId =>
      cases hstep
      exact requestSecuredTunnel_sound hsound toGxsId fromGxsId serviceId
  | closeExistingTunnel env tunnel serviceId =>
      cases hstep
      exact closeExistingTunnel_sound hsound serviceId
  | sendData tunnel serviceId data =>
      cases hstep
      unfold sendData
      split
      · exact hsound
      · split
        · exact hsound
        · exact hsound
  | addVirtualPeer env hash peer dir =>
      cases hstep
      simpa using hsound
  | removeVirtualPeer peer =>
      cases hstep
      exact removeVirtualPeer_sound hsound peer
  | receiveTurtleData env bytes peer => exact receiveTurtleData_sound hsound hagreed hstep
  | flush env =>
      cases hstep
      exact flush_sound hsound

end Functions

end Authentication

/-! ### A small group

The exchange in the group of order 22 generated by 5 modulo 23, with transparent signatures and
ciphers. A public key of 0 makes the agreed number vanish, so that fewer bytes come out.
-/

def writeBytes : List UInt8 → List UInt8
  | [] => [0]
  | byte :: bytes => 1 :: byte :: writeBytes bytes

def readBytes : List UInt8 → Option (List UInt8 × List UInt8)
  | 0 :: rest => some ([], rest)
  | 1 :: byte :: rest => (readBytes rest).map fun (bytes, rest) => (byte :: bytes, rest)
  | _ => none

theorem readBytes_writeBytes (bytes rest : List UInt8) :
    readBytes (writeBytes bytes ++ rest) = some (bytes, rest) := by
  induction bytes with
  | nil => rfl
  | cons byte bytes ih => simp [writeBytes, readBytes, ih]

def bin2bn (bytes : List UInt8) : Nat := Nat.ofDigits 256 (bytes.reverse.map UInt8.toNat)

theorem bin2bn_bn2bin (n : Nat) : bin2bn (bn2bin n) = n := by
  have hdigits : ((Nat.digits 256 n).map UInt8.ofNat).map UInt8.toNat = Nat.digits 256 n := by
    rw [List.map_map, List.map_congr_left (g := id), List.map_id]
    intro digit hmem
    have hlt : digit < 256 := Nat.digits_lt_base (by norm_num) hmem
    simp [Nat.mod_eq_of_lt hlt]
  unfold bin2bn bn2bin
  rw [← List.map_reverse, List.reverse_reverse, hdigits, Nat.ofDigits_digits]

def sampleSerialise : Item → List UInt8
  | .data uniqueItemCounter flags serviceId data =>
      1 :: (writeBytes (bn2bin uniqueItemCounter) ++ writeBytes (bn2bin flags) ++
        writeBytes (bn2bin serviceId) ++ writeBytes data)
  | .dhPublicKey item =>
      2 :: (writeBytes (bn2bin item.publicKey) ++ writeBytes item.signature.keyId.1 ++
        writeBytes item.signature.signData ++ writeBytes item.gxsKey.keyId.1 ++
        writeBytes item.gxsKey.keyData)
  | .status status => 3 :: writeBytes (bn2bin status)
  | .dataAck uniqueItemCounter => 4 :: writeBytes (bn2bin uniqueItemCounter)

def sampleDeserialise : List UInt8 → Option Item
  | 1 :: bytes => do
      let (uniqueItemCounter, bytes) ← readBytes bytes
      let (flags, bytes) ← readBytes bytes
      let (serviceId, bytes) ← readBytes bytes
      let (data, _) ← readBytes bytes
      some (.data (bin2bn uniqueItemCounter) (bin2bn flags) (bin2bn serviceId) data)
  | 2 :: bytes => do
      let (publicKey, bytes) ← readBytes bytes
      let (signer, bytes) ← readBytes bytes
      let (signData, bytes) ← readBytes bytes
      let (keyId, bytes) ← readBytes bytes
      let (keyData, _) ← readBytes bytes
      if hsize : signer.length = 16 ∧ keyId.length = 16 then
        some (.dhPublicKey
          { publicKey := bin2bn publicKey
            signature := { keyId := ⟨signer, hsize.1⟩, signData }
            gxsKey := { keyId := ⟨keyId, hsize.2⟩, keyData } })
      else none
  | 3 :: bytes => do
      let (status, _) ← readBytes bytes
      some (.status (bin2bn status))
  | 4 :: bytes => do
      let (uniqueItemCounter, _) ← readBytes bytes
      some (.dataAck (bin2bn uniqueItemCounter))
  | _ => none

theorem sampleDeserialise_sampleSerialise (item : Item) :
    sampleDeserialise (sampleSerialise item) = some item := by
  have hlast (bytes : List UInt8) : readBytes (writeBytes bytes) = some (bytes, []) := by
    simpa using readBytes_writeBytes bytes []
  cases item with
  | data uniqueItemCounter flags serviceId data =>
      simp [sampleSerialise, sampleDeserialise, readBytes_writeBytes, hlast, bin2bn_bn2bin]
  | dhPublicKey item =>
      simp [sampleSerialise, sampleDeserialise, readBytes_writeBytes, hlast, bin2bn_bn2bin,
        item.signature.keyId.2, item.gxsKey.keyId.2]
  | status status => simp [sampleSerialise, sampleDeserialise, hlast, bin2bn_bn2bin]
  | dataAck uniqueItemCounter => simp [sampleSerialise, sampleDeserialise, hlast, bin2bn_bn2bin]

theorem length_sampleSum (bytes : List UInt8) :
    ((bytes ++ List.replicate 20 0).take 20).length = 20 := by
  simp

def sampleCrypto : Crypto Nat where
  publicKey := fun secret => 5 ^ secret % 23
  dhSize := 1
  computeKey := fun secret publicKey => bn2bin (publicKey ^ secret % 23)
  sha1sum := fun bytes => ⟨(bytes ++ List.replicate 20 0).take 20, length_sampleSum bytes⟩
  checkPublicKey := fun key => key.keyData = key.keyId.1
  validateSignature := fun data key signature => signature.signData = key.keyData ++ data
  hmac := fun key bytes => ⟨(key.1 ++ bytes ++ List.replicate 4 0).take 20, by simp [key.2]; omega⟩
  aesCrypt := fun _ _ bytes => some bytes
  aesDecrypt := fun _ _ bytes => some bytes
  serialise := fun item => some (sampleSerialise item)
  deserialise := sampleDeserialise

theorem length_sampleId (byte : UInt8) : (List.replicate 16 byte).length = 16 :=
  List.length_replicate

def sampleId (byte : UInt8) : { bytes : List UInt8 // bytes.length = 16 } :=
  ⟨List.replicate 16 byte, length_sampleId byte⟩

def sampleKey (id : GxsId) : RsaPublicKey := { keyId := id, keyData := id.1 }

def sampleSurroundings (secret : Nat) : Surroundings Nat where
  now := 0
  getOwnIds := [sampleId 1, sampleId 2]
  getKey := fun id => some (sampleKey id)
  signData := fun data id => some { keyId := id, signData := id.1 ++ data }
  initDhSessionKey := .key secret
  randomIv := fun _ => ⟨List.replicate 8 1, by decide⟩
  randomBytes := ⟨List.replicate 4 3, rfl⟩
  acceptDataFromPeer := fun _ _ _ _ => true

/-- A public key signed by the identity, in clear. -/
def samplePacket (id : GxsId) (publicKey : Nat) : List UInt8 :=
  List.replicate 8 0 ++ sampleSerialise (.dhPublicKey
    { publicKey
      signature := { keyId := id, signData := id.1 ++ bn2bin publicKey }
      gxsKey := sampleKey id })

def sampleHash : FileHash := ⟨List.replicate 4 3 ++ List.replicate 16 2, rfl⟩

def verifiedKeys (events : List Event) : List Nat :=
  events.filterMap fun
    | .verified item _ => some item.publicKey
    | _ => none

theorem mem_verifiedKeys {events : List Event} {item : DhPublicKeyItem} {key : RsaPublicKey}
    (hmem : Event.verified item key ∈ events) : item.publicKey ∈ verifiedKeys events :=
  List.mem_filterMap.mpr ⟨_, hmem, rfl⟩

theorem not_opensUnagreed_samplePacket {s : Service Nat} {env : Surroundings Nat} {id : GxsId}
    {publicKey : Nat} {peer : VirtualPeerId} :
    ¬ OpensUnagreed sampleCrypto s (.receiveTurtleData env (samplePacket id publicKey) peer) := by
  rintro ⟨dhinfo, contact, iv, -, -, -, hiv, -⟩
  exact iv.2.2 hiv

end Service

end RetroShare.GxsTunnel
