import RetroShare.GxsTunnel.Service

/-!
# What the functions of the tunnel service leave alone

One lemma for each part of the state that a function does not touch. Key agreement touches virtual
peers and the queue of public keys; sending touches neither contacts nor virtual peers.
-/

namespace RetroShare.GxsTunnel.Service

variable {Secret : Type} (c : Crypto Secret) (env : Surroundings Secret) (s : Service Secret)

/-! ### Starting an exchange -/

section Restart

variable (secret : Secret) (ownGxsId : GxsId) (peer : VirtualPeerId)

/-- Only the queue of public keys grows. -/
theorem sendDhPublicKey_eq :
    ∃ items, sendDhPublicKey c env s secret ownGxsId peer = { s with pendingDhItems := items } := by
  unfold sendDhPublicKey
  dsimp only
  split
  · exact ⟨_, rfl⟩
  · exact ⟨s.pendingDhItems, rfl⟩

/-- Only the virtual peer and the queue of public keys change. -/
theorem restartDhSession_eq :
    ∃ dhinfo items, restartDhSession c env s peer ownGxsId =
      { s.setVirtualPeer peer dhinfo with pendingDhItems := items } := by
  unfold restartDhSession
  dsimp only
  split
  · obtain ⟨items, hitems⟩ := sendDhPublicKey_eq c env
      (s.setVirtualPeer peer
        { s.virtualPeers[peer]?.getD .empty with
          status := .halfKeyDone, ownGxsId, dh := env.initDhSessionKey }) _ ownGxsId peer
    exact ⟨_, items, hitems⟩
  · exact ⟨_, s.pendingDhItems, rfl⟩

@[simp]
theorem restartDhSession_contacts :
    (restartDhSession c env s peer ownGxsId).contacts = s.contacts := by
  obtain ⟨dhinfo, items, heq⟩ := restartDhSession_eq c env s ownGxsId peer
  rw [heq]
  rfl

@[simp]
theorem restartDhSession_events :
    (restartDhSession c env s peer ownGxsId).events = s.events := by
  obtain ⟨dhinfo, items, heq⟩ := restartDhSession_eq c env s ownGxsId peer
  rw [heq]
  rfl

end Restart

@[simp]
theorem addVirtualPeer_contacts (hash : FileHash) (peer : VirtualPeerId) (dir : Direction) :
    (addVirtualPeer c env s hash peer dir).contacts = s.contacts := by
  unfold addVirtualPeer
  dsimp only
  split
  · rw [restartDhSession_contacts]
    rfl
  · split
    · rfl
    · split
      · rfl
      · rw [restartDhSession_contacts]
        rfl

@[simp]
theorem addVirtualPeer_events (hash : FileHash) (peer : VirtualPeerId) (dir : Direction) :
    (addVirtualPeer c env s hash peer dir).events = s.events := by
  unfold addVirtualPeer
  dsimp only
  split
  · rw [restartDhSession_events]
    rfl
  · split
    · rfl
    · split
      · rfl
      · rw [restartDhSession_events]
        rfl

/-! ### Sending -/

/-- A packet that is sent is encrypted with the key of a contact that can talk. -/
theorem sendEncryptedTunnelData_cases (tunnel : TunnelId) (item : Item) :
    sendEncryptedTunnelData c env s tunnel item = (false, s) ∨
      ∃ (contact : PeerInfo) (bytes : List UInt8), s.contacts[tunnel]? = some contact ∧
        contact.status = .canTalk ∧ bytes.take 8 ≠ List.replicate 8 0 ∧
        sendEncryptedTunnelData c env s tunnel item =
          (true, (s.record [.encrypted tunnel contact.toGxsId contact.aesKey item]).sendTurtleData
            contact.virtualPeerId bytes) := by
  unfold sendEncryptedTunnelData
  cases c.serialise item with
  | none => exact .inl rfl
  | some buff =>
      cases hlookup : s.contacts[tunnel]? with
      | none => exact .inl rfl
      | some contact =>
          by_cases htalk : contact.status = .canTalk
          · cases hcrypt : c.aesCrypt contact.aesKey (env.randomIv s.sent.length) buff with
            | none =>
                left
                simp [htalk, hcrypt]
            | some encrypted =>
                right
                refine ⟨contact, (env.randomIv s.sent.length).1 ++
                  (c.hmac contact.aesKey encrypted).1 ++ encrypted, rfl, htalk, ?_, ?_⟩
                · have hiv := (env.randomIv s.sent.length).2
                  rw [List.append_assoc, List.take_left' hiv.1]
                  exact hiv.2
                · simp only [htalk, ne_eq, not_true_eq_false, ↓reduceIte, hcrypt]
          · left
            simp [htalk]

@[simp]
theorem sendEncryptedTunnelData_contacts (tunnel : TunnelId) (item : Item) :
    (sendEncryptedTunnelData c env s tunnel item).2.contacts = s.contacts := by
  rcases sendEncryptedTunnelData_cases c env s tunnel item with heq | ⟨contact, bytes, -, -, -, heq⟩
  · rw [heq]
  · rw [heq]
    rfl

@[simp]
theorem sendEncryptedTunnelData_virtualPeers (tunnel : TunnelId) (item : Item) :
    (sendEncryptedTunnelData c env s tunnel item).2.virtualPeers = s.virtualPeers := by
  rcases sendEncryptedTunnelData_cases c env s tunnel item with heq | ⟨contact, bytes, -, -, -, heq⟩
  · rw [heq]
  · rw [heq]
    rfl

theorem sendClearTunnelData_eq (peer : VirtualPeerId) (item : DhPublicKeyItem) :
    ∃ sent, (sendClearTunnelData c s peer item).2 = { s with sent } := by
  unfold sendClearTunnelData
  split
  · exact ⟨s.sent, rfl⟩
  · exact ⟨_, rfl⟩

/-- Public keys leave the queue for the router; nothing else changes. -/
theorem flushDhItems_eq :
    ∃ sent items, flushDhItems c s = { s with sent, pendingDhItems := items } := by
  unfold flushDhItems
  apply List.foldlRecOn (motive := fun s' : Service Secret =>
    ∃ sent items, s' = { s with sent, pendingDhItems := items })
  · exact ⟨s.sent, [], rfl⟩
  · rintro s' ⟨sent, items, rfl⟩ entry -
    unfold flushDhItem
    obtain ⟨sent', heq⟩ := sendClearTunnelData_eq c { s with sent, pendingDhItems := items } entry.1
      entry.2
    generalize sendClearTunnelData c { s with sent, pendingDhItems := items } entry.1 entry.2 =
      result at heq
    obtain ⟨done, s'⟩ := result
    subst heq
    cases done with
    | true => exact ⟨sent', items, rfl⟩
    | false => exact ⟨sent', items ++ [entry], rfl⟩

@[simp]
theorem flushDhItems_contacts : (flushDhItems c s).contacts = s.contacts := by
  obtain ⟨sent, items, heq⟩ := flushDhItems_eq c s
  rw [heq]

@[simp]
theorem flushDhItems_events : (flushDhItems c s).events = s.events := by
  obtain ⟨sent, items, heq⟩ := flushDhItems_eq c s
  rw [heq]

/-! ### Maintenance of contacts -/

/-- The contact still has the same key and ends, and was not raised. -/
structure KeepsAgreement (contact contact' : PeerInfo) : Prop where
  aesKey : contact'.aesKey = contact.aesKey
  toGxsId : contact'.toGxsId = contact.toGxsId
  ownGxsId : contact'.ownGxsId = contact.ownGxsId
  hash : contact'.hash = contact.hash
  status : contact'.status = contact.status ∨ contact'.status = .tunnelDn
  prints : ∀ k ∈ contact'.receivedDataPrints, k ∈ contact.receivedDataPrints

theorem keepsAgreement_dropInterrupted (contact : PeerInfo) :
    KeepsAgreement contact (dropInterrupted env contact) := by
  unfold dropInterrupted
  split
  · exact ⟨rfl, rfl, rfl, rfl, .inr rfl, fun _ => id⟩
  · exact ⟨rfl, rfl, rfl, rfl, .inl rfl, fun _ => id⟩

theorem mem_prints_cleanDataPrints {contact : PeerInfo} {k : Nat}
    (hprint : k ∈ (cleanDataPrints env contact).receivedDataPrints) :
    k ∈ contact.receivedDataPrints := by
  rw [← Std.ExtTreeMap.isSome_getElem?_iff_mem] at hprint ⊢
  simp only [cleanDataPrints] at hprint
  rw [OrderedMap.lookup_filter] at hprint
  exact Option.isSome_of_isSome_filter _ _ hprint

theorem KeepsAgreement.clean {contact contact' : PeerInfo} (hkeeps : KeepsAgreement contact contact') :
    KeepsAgreement contact (cleanDataPrints env (stampKeepAlive env contact')) := by
  unfold stampKeepAlive
  split
  · exact ⟨hkeeps.aesKey, hkeeps.toGxsId, hkeeps.ownGxsId, hkeeps.hash, hkeeps.status,
      fun k hprint => hkeeps.prints k (mem_prints_cleanDataPrints env hprint)⟩
  · exact ⟨hkeeps.aesKey, hkeeps.toGxsId, hkeeps.ownGxsId, hkeeps.hash, hkeeps.status,
      fun k hprint => hkeeps.prints k (mem_prints_cleanDataPrints env hprint)⟩

/-- A pass over a contact removes it or keeps its agreement. -/
theorem flushContact_cases (tunnel : TunnelId) (contact : PeerInfo) :
    (contact.status = .remotelyClosed ∧
        s.flushContact env (tunnel, contact) = { s with contacts := s.contacts.erase tunnel }) ∨
      ∃ (contact' : PeerInfo) (items : List (TunnelId × Item)) (hashes : List FileHash),
        KeepsAgreement contact contact' ∧
        (∀ entry ∈ items, ∃ status, entry.2 = .status status) ∧
        s.flushContact env (tunnel, contact) =
          { (s.setContact tunnel contact').record (hashes.map .forceReDiggTunnels) with
            pendingItems := s.pendingItems ++ items } := by
  by_cases hclosed : contact.status = .remotelyClosed ∧ contact.lastContact + 20 < env.now
  · exact .inl ⟨hclosed.1, if_pos hclosed⟩
  · refine .inr ⟨_, _, _, (keepsAgreement_dropInterrupted env contact).clean env, ?_, if_neg hclosed⟩
    intro entry hmem
    split at hmem
    · exact ⟨_, by rw [List.mem_singleton.mp hmem]⟩
    · cases hmem

/-! ### Flushing -/

def isClear (packet : VirtualPeerId × List UInt8) : Bool := packet.2.take 8 = List.replicate 8 0

/-- After `s` was flushed in part: exchanges and clear packets are as they were, every contact left
agrees with what it was, and only closed contacts are gone. -/
structure Flushed (s s' : Service Secret) : Prop where
  virtualPeers : s'.virtualPeers = s.virtualPeers
  pendingDhItems : s'.pendingDhItems = s.pendingDhItems
  sent : s'.sent.filter isClear = s.sent.filter isClear
  kept : ∀ (tunnel : TunnelId) (contact' : PeerInfo), s'.contacts[tunnel]? = some contact' →
    ∃ contact, s.contacts[tunnel]? = some contact ∧ KeepsAgreement contact contact'
  stays : ∀ (tunnel : TunnelId) (contact : PeerInfo), s.contacts[tunnel]? = some contact →
    contact.status ≠ .remotelyClosed → s'.contacts[tunnel]? ≠ none

variable {c env s}

theorem KeepsAgreement.refl (contact : PeerInfo) : KeepsAgreement contact contact :=
  ⟨rfl, rfl, rfl, rfl, .inl rfl, fun _ => id⟩

theorem Flushed.refl (s : Service Secret) : Flushed s s where
  virtualPeers := rfl
  pendingDhItems := rfl
  sent := rfl
  kept := fun _ contact hlookup => ⟨contact, hlookup, .refl contact⟩
  stays := fun _ _ hlookup _ => by simp [hlookup]

theorem Flushed.sendEncrypted (c : Crypto Secret) (env : Surroundings Secret)
    {s' : Service Secret} (hflushed : Flushed s s') (tunnel : TunnelId) (item : Item) : Flushed s (s'.sendEncryptedTunnelData c env tunnel item).2 := by
  rcases sendEncryptedTunnelData_cases c env s' tunnel item with
    heq | ⟨contact, bytes, -, -, hclear, heq⟩
  · rw [heq]
    exact hflushed
  · rw [heq]
    exact
      { virtualPeers := hflushed.virtualPeers
        pendingDhItems := hflushed.pendingDhItems
        sent := by
          have hdropped : isClear (contact.virtualPeerId, bytes) = false := decide_eq_false hclear
          simp only [sendTurtleData, record, List.filter_append, hflushed.sent]
          simp [hdropped]
        kept := hflushed.kept
        stays := hflushed.stays }

theorem flushItems_flushed (s : Service Secret) : Flushed s (s.flushItems c env) := by
  unfold flushItems
  apply List.foldlRecOn (motive := fun s' : Service Secret => Flushed s s')
  · exact ⟨rfl, rfl, rfl, (Flushed.refl s).kept, (Flushed.refl s).stays⟩
  · intro s' hflushed entry _
    have hsent := hflushed.sendEncrypted c env entry.1 entry.2
    unfold flushItem
    split
    · next heq => rwa [heq] at hsent
    · next heq =>
        rw [heq] at hsent
        exact ⟨hsent.virtualPeers, hsent.pendingDhItems, hsent.sent, hsent.kept, hsent.stays⟩

theorem flushDataItems_flushed {s s' : Service Secret} (hflushed : Flushed s s') :
    Flushed s (s'.flushDataItems c env) := by
  unfold flushDataItems
  apply List.foldlRecOn (motive := fun s' : Service Secret => Flushed s s')
  · exact hflushed
  · intro s' hflushed entry _
    have hsent := hflushed.sendEncrypted c env entry.2.peerId entry.2.item
    unfold resendDataItem
    split
    · split
      · next heq =>
          rw [heq] at hsent
          exact ⟨hsent.virtualPeers, hsent.pendingDhItems, hsent.sent, hsent.kept, hsent.stays⟩
      · next heq => rwa [heq] at hsent
    · exact hflushed

/-- A pass over a contact of the state that the flush began with. -/
theorem Flushed.flushContact {s' : Service Secret} (hflushed : Flushed s s') {tunnel : TunnelId}
    {contact : PeerInfo} (hlookup : s.contacts[tunnel]? = some contact) :
    Flushed s (s'.flushContact env (tunnel, contact)) := by
  rcases flushContact_cases env s' tunnel contact with
    ⟨hclosed, heq⟩ | ⟨contact', items, hashes, hkeeps, -, heq⟩
  · rw [heq]
    refine ⟨hflushed.virtualPeers, hflushed.pendingDhItems, hflushed.sent, ?_, ?_⟩
    · intro other info hother
      rw [OrderedMap.lookup_erase] at hother
      split at hother
      · cases hother
      · exact hflushed.kept other info hother
    · intro other info hother hopen
      have hne : tunnel ≠ other := by
        rintro rfl
        rw [hlookup] at hother
        cases hother
        exact hopen hclosed
      rw [OrderedMap.lookup_erase_ne _ hne]
      exact hflushed.stays other info hother hopen
  · rw [heq]
    refine ⟨hflushed.virtualPeers, hflushed.pendingDhItems, hflushed.sent, ?_, ?_⟩
    · intro other info hother
      simp only [setContact, record, OrderedMap.lookup_insert] at hother
      split at hother
      · next hsame =>
          cases hother
          exact ⟨contact, hsame ▸ hlookup, hkeeps⟩
      · exact hflushed.kept other info hother
    · intro other info hother hopen
      simp only [setContact, record, OrderedMap.lookup_insert]
      split
      · nofun
      · exact hflushed.stays other info hother hopen

theorem flushContacts_flushed {sending : Service Secret}
    (hcontacts : sending.contacts = s.contacts) (hflushed : Flushed s sending) :
    Flushed s (sending.contacts.toList.foldl (flushContact env) sending) := by
  apply List.foldlRecOn (motive := fun s' : Service Secret => Flushed s s')
  · exact hflushed
  · rintro s' hflushed' ⟨tunnel, contact⟩ hmem
    rw [OrderedMap.mem_toList, hcontacts] at hmem
    exact hflushed'.flushContact hmem

@[simp]
theorem flushItems_contacts (s : Service Secret) :
    (s.flushItems c env).contacts = s.contacts := by
  unfold flushItems
  apply List.foldlRecOn (motive := fun s' : Service Secret => s'.contacts = s.contacts)
  · rfl
  · intro s' hcontacts entry _
    have hsent := sendEncryptedTunnelData_contacts c env s' entry.1 entry.2
    unfold flushItem
    split
    · next heq => rw [← hcontacts, ← hsent, heq]
    · next heq => rw [← hcontacts, ← hsent, heq]

@[simp]
theorem flushDataItems_contacts (s : Service Secret) :
    (s.flushDataItems c env).contacts = s.contacts := by
  unfold flushDataItems
  apply List.foldlRecOn (motive := fun s' : Service Secret => s'.contacts = s.contacts)
  · rfl
  · intro s' hcontacts entry _
    have hsent := sendEncryptedTunnelData_contacts c env s' entry.2.peerId entry.2.item
    unfold resendDataItem
    split
    · split
      · next heq => rw [← hcontacts, ← hsent, heq]
      · next heq => rw [← hcontacts, ← hsent, heq]
    · exact hcontacts

/-- Once the public keys are sent, the rest of a flush leaves exchanges and clear packets alone. -/
theorem flush_flushed (c : Crypto Secret) (env : Surroundings Secret) (s : Service Secret) : Flushed (s.flushDhItems c) (s.flush c env) := by
  unfold flush
  apply flushContacts_flushed
  · simp
  · exact flushDataItems_flushed (flushItems_flushed (s.flushDhItems c))

end RetroShare.GxsTunnel.Service
