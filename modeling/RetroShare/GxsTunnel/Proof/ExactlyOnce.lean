import RetroShare.GxsTunnel.Network
import RetroShare.GxsTunnel.Proof.KeyAuthentication

/-!
# Data items are delivered exactly once

Everything a node does apart from queueing a data item and receiving one is quiet: it sends only what
is queued, and neither queues acknowledgements nor adds prints. What a number of a node stands for then
stays the same until it is given to a new item, and an acknowledgement says that this item arrived.
-/

namespace RetroShare.GxsTunnel

variable {Secret : Type}

def Item.isData : Item → Bool
  | .data _ _ _ _ => true
  | _ => false

namespace Service

/-- Pending data items carry the number they are pending under, and only they are data items. -/
structure WellNumbered (s : Service Secret) : Prop where
  number : ∀ (k : Nat) (tdata : TunnelData), s.pendingDataItems[k]? = some tdata →
    ∃ flags serviceId data, tdata.item = .data k flags serviceId data
  noData : ∀ entry ∈ s.pendingItems, entry.2.isData = false

/-- An encrypted data item or acknowledgement is one that is queued for that tunnel. -/
def Queued (s : Service Secret) : Event → Prop
  | .encrypted tunnel _ _ (.data k _ _ _) =>
      ∃ tdata : TunnelData, s.pendingDataItems[k]? = some tdata ∧ tdata.peerId = tunnel
  | .encrypted tunnel _ _ (.dataAck k) => (tunnel, .dataAck k) ∈ s.pendingItems
  | _ => True

/-- Between `s` and `s'` no data item was queued or received. -/
structure Calm (s s' : Service Secret) : Prop where
  acks : ∀ tunnel k, (tunnel, .dataAck k) ∈ s'.pendingItems → (tunnel, .dataAck k) ∈ s.pendingItems
  noData : ∀ entry ∈ s'.pendingItems, entry.2.isData = true → entry ∈ s.pendingItems
  pending : ∀ (k : Nat) (tdata' : TunnelData), s'.pendingDataItems[k]? = some tdata' →
    ∃ tdata, s.pendingDataItems[k]? = some tdata ∧ tdata'.peerId = tdata.peerId ∧
      tdata'.item = tdata.item
  prints : ∀ (tunnel : TunnelId) (contact' : PeerInfo) (k : Nat),
    s'.contacts[tunnel]? = some contact' → k ∈ contact'.receivedDataPrints →
      ∃ contact, s.contacts[tunnel]? = some contact ∧ k ∈ contact.receivedDataPrints

/-- From `s` to `s'` nothing was sent that was not queued, either. -/
structure Quiet (s s' : Service Secret) : Prop extends Calm s s' where
  events : ∃ new, s'.events = s.events ++ new ∧ ∀ event ∈ new, s.Queued event

variable {s s' s'' : Service Secret}

theorem Quiet.refl (s : Service Secret) : Quiet s s where
  events := ⟨[], by simp, by simp⟩
  acks := fun _ _ => id
  noData := fun _ hmem _ => hmem
  pending := fun _ tdata hlookup => ⟨tdata, hlookup, rfl, rfl⟩
  prints := fun _ contact _ hlookup hprint => ⟨contact, hlookup, hprint⟩

theorem Quiet.queued (hquiet : Quiet s s') {event : Event} (hqueued : s'.Queued event) :
    s.Queued event := by
  unfold Queued at hqueued ⊢
  split at hqueued
  · obtain ⟨tdata', hlookup', hpeer⟩ := hqueued
    obtain ⟨tdata, hlookup, hsame, -⟩ := hquiet.pending _ tdata' hlookup'
    exact ⟨tdata, hlookup, hsame ▸ hpeer⟩
  · exact hquiet.acks _ _ hqueued
  · trivial

theorem Quiet.trans (hfirst : Quiet s s') (hsecond : Quiet s' s'') : Quiet s s'' where
  events := by
    obtain ⟨new, hnew, hqueued⟩ := hfirst.events
    obtain ⟨new', hnew', hqueued'⟩ := hsecond.events
    refine ⟨new ++ new', by rw [hnew', hnew, List.append_assoc], ?_⟩
    intro event hmem
    rcases List.mem_append.mp hmem with hold | hmem
    · exact hqueued event hold
    · exact hfirst.queued (hqueued' event hmem)
  acks := fun tunnel k hmem => hfirst.acks tunnel k (hsecond.acks tunnel k hmem)
  noData := fun entry hmem hdata => hfirst.noData entry (hsecond.noData entry hmem hdata) hdata
  pending := fun k tdata'' hlookup'' => by
    obtain ⟨tdata', hlookup', hpeer', hitem'⟩ := hsecond.pending k tdata'' hlookup''
    obtain ⟨tdata, hlookup, hpeer, hitem⟩ := hfirst.pending k tdata' hlookup'
    exact ⟨tdata, hlookup, hpeer'.trans hpeer, hitem'.trans hitem⟩
  prints := fun tunnel contact'' k hlookup'' hprint'' => by
    obtain ⟨contact', hlookup', hprint'⟩ := hsecond.prints tunnel contact'' k hlookup'' hprint''
    exact hfirst.prints tunnel contact' k hlookup' hprint'

theorem WellNumbered.calm (hnumbered : WellNumbered s) (hquiet : Calm s s') :
    WellNumbered s' where
  number := fun k tdata' hlookup' => by
    obtain ⟨tdata, hlookup, -, hitem⟩ := hquiet.pending k tdata' hlookup'
    rw [hitem]
    exact hnumbered.number k tdata hlookup
  noData := fun entry hmem => by
    cases hdata : entry.2.isData with
    | false => rfl
    | true => rw [← hdata, hnumbered.noData entry (hquiet.noData entry hmem hdata)]

/-- What else changes does not matter. -/
theorem Quiet.congr (hquiet : Quiet s s') (hevents : s''.events = s'.events)
    (hitems : s''.pendingItems = s'.pendingItems)
    (hpending : s''.pendingDataItems = s'.pendingDataItems)
    (hcontacts : s''.contacts = s'.contacts) : Quiet s s'' where
  events := by
    rw [hevents]
    exact hquiet.events
  acks := by
    rw [hitems]
    exact hquiet.acks
  noData := by
    rw [hitems]
    exact hquiet.noData
  pending := by
    rw [hpending]
    exact hquiet.pending
  prints := by
    rw [hcontacts]
    exact hquiet.prints

theorem Quiet.setContact (hquiet : Quiet s s') {tunnel : TunnelId} {contact : PeerInfo}
    (hprints : ∀ k ∈ contact.receivedDataPrints, ∃ old,
      s.contacts[tunnel]? = some old ∧ k ∈ old.receivedDataPrints) :
    Quiet s (s'.setContact tunnel contact) where
  events := hquiet.events
  acks := hquiet.acks
  noData := hquiet.noData
  pending := hquiet.pending
  prints := fun other contact' k hlookup hprint => by
    simp only [Service.setContact, OrderedMap.lookup_insert] at hlookup
    split at hlookup
    · next hsame =>
        cases hlookup
        exact hsame ▸ hprints k hprint
    · exact hquiet.prints other contact' k hlookup hprint

theorem Quiet.eraseContact (hquiet : Quiet s s') (tunnel : TunnelId) :
    Quiet s { s' with contacts := s'.contacts.erase tunnel } where
  events := hquiet.events
  acks := hquiet.acks
  noData := hquiet.noData
  pending := hquiet.pending
  prints := fun other contact' k hlookup hprint => by
    rw [OrderedMap.lookup_erase] at hlookup
    split at hlookup
    · cases hlookup
    · exact hquiet.prints other contact' k hlookup hprint

theorem Quiet.record (hquiet : Quiet s s') {new : List Event}
    (hqueued : ∀ event ∈ new, s.Queued event) : Quiet s (s'.record new) where
  events := by
    obtain ⟨old, hold, hqueued'⟩ := hquiet.events
    refine ⟨old ++ new, by simp [Service.record, hold], fun event hmem => ?_⟩
    rcases List.mem_append.mp hmem with hmem | hmem
    · exact hqueued' event hmem
    · exact hqueued event hmem
  acks := hquiet.acks
  noData := hquiet.noData
  pending := hquiet.pending
  prints := hquiet.prints

theorem queued_of_unused {event : Event} (hunused : event.keyUse = none) : s.Queued event := by
  unfold Queued
  split
  · cases hunused
  · cases hunused
  · trivial

theorem Quiet.record_unused (hquiet : Quiet s s') {new : List Event}
    (hunused : ∀ event ∈ new, event.keyUse = none) : Quiet s (s'.record new) :=
  hquiet.record fun event hmem => queued_of_unused (hunused event hmem)

theorem Quiet.notify (hquiet : Quiet s s') (tunnel : TunnelId) (contact : PeerInfo)
    (notifications : List TunnelStatus) :
    Quiet s (s'.notify tunnel contact notifications) := by
  apply hquiet.record_unused
  intro event hmem
  obtain ⟨service, -, hmem⟩ := List.mem_flatMap.mp hmem
  obtain ⟨status, -, rfl⟩ := List.mem_map.mp hmem
  rfl

/-- Status items may be queued. -/
theorem Quiet.appendItems (hquiet : Quiet s s') {items : List (TunnelId × Item)}
    (hstatus : ∀ entry ∈ items, ∃ status, entry.2 = .status status) :
    Quiet s { s' with pendingItems := s'.pendingItems ++ items } where
  events := hquiet.events
  acks := fun tunnel k hmem => by
    rcases List.mem_append.mp hmem with hold | hnew
    · exact hquiet.acks tunnel k hold
    · obtain ⟨status, heq⟩ := hstatus _ hnew
      cases heq
  noData := fun entry hmem hdata => by
    rcases List.mem_append.mp hmem with hold | hnew
    · exact hquiet.noData entry hold hdata
    · obtain ⟨status, heq⟩ := hstatus _ hnew
      rw [heq] at hdata
      cases hdata
  pending := hquiet.pending
  prints := hquiet.prints

theorem Quiet.pushStatus (hquiet : Quiet s s') (tunnel : TunnelId) (status : Nat) :
    Quiet s (s'.pushItem tunnel (.status status)) :=
  hquiet.appendItems fun _ hmem => ⟨status, by rw [List.mem_singleton.mp hmem]⟩

variable {c : Crypto Secret} {env : Surroundings Secret}

theorem Quiet.restartDhSession (hquiet : Quiet s s') (peer : VirtualPeerId) (ownGxsId : GxsId) :
    Quiet s (s'.restartDhSession c env peer ownGxsId) := by
  obtain ⟨dhinfo, items, heq⟩ := restartDhSession_eq c env s' ownGxsId peer
  rw [heq]
  exact hquiet.congr rfl rfl rfl rfl

theorem quiet_addVirtualPeer (s : Service Secret) (hash : FileHash) (peer : VirtualPeerId)
    (dir : Direction) : Quiet s (s.addVirtualPeer c env hash peer dir) := by
  have hset (dhinfo : DhInfo Secret) : Quiet s (s.setVirtualPeer peer dhinfo) :=
    (Quiet.refl s).congr rfl rfl rfl rfl
  unfold Service.addVirtualPeer
  dsimp only
  split
  · exact (hset _).restartDhSession peer _
  · split
    · exact hset _
    · split
      · exact hset _
      · exact (hset _).restartDhSession peer _

theorem quiet_removeVirtualPeer (s : Service Secret) (peer : VirtualPeerId) :
    Quiet s (s.removeVirtualPeer peer) := by
  unfold Service.removeVirtualPeer
  split
  · exact .refl s
  · next dhinfo _ =>
      have herased : Quiet s { s with virtualPeers := s.virtualPeers.erase peer } :=
        (Quiet.refl s).congr rfl rfl rfl rfl
      dsimp only
      split
      · exact herased
      · next contact hlookup =>
          split
          · apply Quiet.notify
            exact herased.setContact fun k hprint => ⟨contact, hlookup, hprint⟩
          · exact herased

theorem Quiet.agreeOnKey (hquiet : Quiet s s') {peer : VirtualPeerId} {item : DhPublicKeyItem}
    (hagree : s'.agreeOnKey c env peer item = some s'') : Quiet s s'' := by
  unfold Service.agreeOnKey at hagree
  split at hagree
  · cases hagree
  · next dhinfo _ =>
      have hset (dhinfo : DhInfo Secret) : Quiet s (s'.setVirtualPeer peer dhinfo) :=
        hquiet.congr rfl rfl rfl rfl
      dsimp only at hagree
      split at hagree
      · cases hagree
      · cases hagree
        exact hset _
      · split at hagree
        · cases hagree
          exact hset _
        · cases hagree
          apply Quiet.pushStatus
          refine (hset _).setContact fun k hprint => ?_
          cases hlookup : s'.contacts[makeGxsTunnelId c dhinfo.ownGxsId item.signature.keyId]? with
          | none => simp [hlookup, PeerInfo.empty] at hprint
          | some contact =>
              simp only [hlookup, Option.getD_some] at hprint
              exact hquiet.prints _ contact k hlookup hprint

theorem quiet_handleRecvDhPublicKey {peer : VirtualPeerId} {item : DhPublicKeyItem}
    (hrecv : s.handleRecvDhPublicKey c env peer item = some s') : Quiet s s' := by
  unfold Service.handleRecvDhPublicKey at hrecv
  split at hrecv
  · cases hrecv
    exact .refl s
  · next dhinfo _ =>
      split at hrecv
      · cases hrecv
        exact .refl s
      · next rsaKey _ =>
          split at hrecv
          · cases hrecv
            exact .refl s
          · have hrecorded : Quiet s (s.record [.verified item rsaKey]) :=
              (Quiet.refl s).record_unused (by simp [Event.keyUse])
            dsimp only at hrecv
            split at hrecv
            · cases hrecv
              exact hrecorded
            · refine Quiet.agreeOnKey ?_ hrecv
              split
              · exact hrecorded.restartDhSession peer _
              · exact hrecorded

theorem quiet_requestSecuredTunnel (s : Service Secret) (toGxsId fromGxsId : GxsId)
    (serviceId : Nat) : Quiet s (s.requestSecuredTunnel c env toGxsId fromGxsId serviceId) := by
  unfold Service.requestSecuredTunnel Service.startClientGxsTunnelConnection
  split
  · dsimp only
    split
    · exact .refl s
    · refine ((Quiet.refl s).setContact fun k hprint => ?_).record_unused (by simp [Event.keyUse])
      simp at hprint
  · exact .refl s

/-! ### Flushing -/

theorem Quiet.sendEncrypted (c : Crypto Secret) (env : Surroundings Secret) (hquiet : Quiet s s')
    {tunnel : TunnelId} {item : Item} (hqueued : ∀ toGxsId key, s.Queued (.encrypted tunnel toGxsId key item)) :
    Quiet s (s'.sendEncryptedTunnelData c env tunnel item).2 := by
  rcases sendEncryptedTunnelData_cases c env s' tunnel item with
    heq | ⟨contact, bytes, -, -, -, heq⟩
  · rw [heq]
    exact hquiet
  · rw [heq]
    have hrecorded : Quiet s
        (s'.record [.encrypted tunnel contact.toGxsId contact.aesKey item]) :=
      hquiet.record fun event hmem => by
        rw [List.mem_singleton.mp hmem]
        exact hqueued _ _
    exact hrecorded.congr rfl rfl rfl rfl

theorem Quiet.requeue (hquiet : Quiet s s') {entry : TunnelId × Item}
    (hentry : entry ∈ s.pendingItems) :
    Quiet s { s' with pendingItems := s'.pendingItems ++ [entry] } where
  events := hquiet.events
  acks := fun tunnel k hmem => by
    rcases List.mem_append.mp hmem with hold | hnew
    · exact hquiet.acks tunnel k hold
    · rwa [List.mem_singleton.mp hnew]
  noData := fun entry' hmem hdata => by
    rcases List.mem_append.mp hmem with hold | hnew
    · exact hquiet.noData entry' hold hdata
    · rwa [List.mem_singleton.mp hnew]
  pending := hquiet.pending
  prints := hquiet.prints

theorem quiet_flushItems (c : Crypto Secret) (env : Surroundings Secret)
    (hnumbered : WellNumbered s) : Quiet s (s.flushItems c env) := by
  unfold Service.flushItems
  apply List.foldlRecOn (motive := fun s' : Service Secret => Quiet s s')
  · exact
      { events := (Quiet.refl s).events
        acks := by simp
        noData := by simp
        pending := (Quiet.refl s).pending
        prints := (Quiet.refl s).prints }
  · intro s' hquiet entry hmem
    have hqueued : ∀ toGxsId key, s.Queued (.encrypted entry.1 toGxsId key entry.2) := by
      intro toGxsId key
      have hnodata := hnumbered.noData entry hmem
      obtain ⟨tunnel, item⟩ := entry
      cases item with
      | data => cases hnodata
      | dhPublicKey => trivial
      | status => trivial
      | dataAck => exact hmem
    have hsent := hquiet.sendEncrypted c env hqueued
    unfold Service.flushItem
    split
    · next heq => rwa [heq] at hsent
    · next heq =>
        rw [heq] at hsent
        exact hsent.requeue hmem

theorem Quiet.restamp (hquiet : Quiet s s') {k : Nat} {tdata : TunnelData} (now : Int)
    (hlookup : s.pendingDataItems[k]? = some tdata) :
    Quiet s { s' with
      pendingDataItems :=
        s'.pendingDataItems.insert k { tdata with lastSendingAttempt := now } } where
  events := hquiet.events
  acks := hquiet.acks
  noData := hquiet.noData
  pending := fun j tdata' hlookup' => by
    rw [OrderedMap.lookup_insert] at hlookup'
    split at hlookup'
    · next hsame =>
        cases hlookup'
        exact ⟨tdata, hsame ▸ hlookup, rfl, rfl⟩
    · exact hquiet.pending j tdata' hlookup'
  prints := hquiet.prints

theorem quiet_flushDataItems (c : Crypto Secret) (env : Surroundings Secret)
    (hnumbered : WellNumbered s) : Quiet s (s.flushDataItems c env) := by
  unfold Service.flushDataItems
  apply List.foldlRecOn (motive := fun s' : Service Secret => Quiet s s')
  · exact .refl s
  · rintro s' hquiet ⟨k, tdata⟩ hmem
    have hlookup := (OrderedMap.mem_toList s.pendingDataItems).mp hmem
    obtain ⟨flags, serviceId, data, hitem⟩ := hnumbered.number k tdata hlookup
    have hqueued : ∀ toGxsId key,
        s.Queued (.encrypted tdata.peerId toGxsId key tdata.item) := by
      intro toGxsId key
      rw [hitem]
      exact ⟨tdata, hlookup, rfl⟩
    have hsent := hquiet.sendEncrypted c env hqueued
    unfold Service.resendDataItem
    split
    · split
      · next heq =>
          rw [heq] at hsent
          exact hsent.restamp env.now hlookup
      · next heq => rwa [heq] at hsent
    · exact hquiet

theorem quiet_flushContacts (env : Surroundings Secret) (s : Service Secret) :
    Quiet s (s.contacts.toList.foldl (flushContact env) s) := by
  apply List.foldlRecOn (motive := fun s' : Service Secret => Quiet s s')
  · exact .refl s
  · rintro s' hquiet ⟨tunnel, contact⟩ hmem
    have hlookup := (OrderedMap.mem_toList s.contacts).mp hmem
    rcases flushContact_cases env s' tunnel contact with
      ⟨-, heq⟩ | ⟨contact', items, hashes, hkeeps, hitems, heq⟩
    · rw [heq]
      exact hquiet.eraseContact tunnel
    · rw [heq]
      refine ((hquiet.setContact fun k hprint => ⟨contact, hlookup, hkeeps.prints k hprint⟩).record_unused
        fun event hmem => ?_).appendItems hitems
      obtain ⟨hash, -, rfl⟩ := List.mem_map.mp hmem
      rfl

theorem quiet_flush (hnumbered : WellNumbered s) : Quiet s (s.flush c env) := by
  have hdh : Quiet s (s.flushDhItems c) := by
    obtain ⟨sent, items, heq⟩ := flushDhItems_eq c s
    rw [heq]
    exact (Quiet.refl s).congr rfl rfl rfl rfl
  have hitems := hdh.trans (quiet_flushItems c env (hnumbered.calm hdh.toCalm))
  have hdata := hitems.trans (quiet_flushDataItems c env (hnumbered.calm hitems.toCalm))
  exact hdata.trans (quiet_flushContacts env _)

theorem quiet_closeExistingTunnel (s : Service Secret) (tunnel : TunnelId) (serviceId : Nat) :
    Quiet s (s.closeExistingTunnel c env tunnel serviceId) := by
  unfold Service.closeExistingTunnel
  split
  · exact .refl s
  · next contact hlookup =>
      dsimp only
      split
      · exact .refl s
      · have hfewer : Quiet s (s.setContact tunnel
            { contact with clientServices := contact.clientServices.erase serviceId }) :=
          (Quiet.refl s).setContact fun k hprint => ⟨contact, hlookup, hprint⟩
        split
        · exact hfewer
        · have hqueued : ∀ toGxsId key, s.Queued
              (.encrypted tunnel toGxsId key (.status flagClosingDistantConnection)) :=
            fun _ _ => trivial
          have hsent := hfewer.sendEncrypted c env hqueued
          split
          · exact (hsent.record_unused (by simp [Event.keyUse])).eraseContact tunnel
          · exact hsent.eraseContact tunnel

/-! ### Calls -/

theorem quiet_receiveTurtleData {bytes : List UInt8} {peer : VirtualPeerId}
    (hclear : bytes.take 8 = List.replicate 8 0)
    (hrecv : s.receiveTurtleData c env bytes peer = some s') : Quiet s s' := by
  unfold Service.receiveTurtleData at hrecv
  split at hrecv
  · cases hrecv
    exact .refl s
  · rw [dif_neg (not_not.mpr hclear)] at hrecv
    split at hrecv
    · exact quiet_handleRecvDhPublicKey hrecv
    · cases hrecv
      exact .refl s

/-- A call that queues no data item is quiet. -/
theorem quiet_step {op : Op Secret} (hnumbered : WellNumbered s) (hcarries : Network.CarriesNoItem op)
    (hqueues : Network.Queues s op = none) (hstep : s.step c op = some s') : Quiet s s' := by
  cases op with
  | registerClientService serviceId =>
      cases hstep
      exact (Quiet.refl s).congr rfl rfl rfl rfl
  | requestSecuredTunnel env toGxsId fromGxsId serviceId =>
      cases hstep
      exact quiet_requestSecuredTunnel s toGxsId fromGxsId serviceId
  | closeExistingTunnel env tunnel serviceId =>
      cases hstep
      exact quiet_closeExistingTunnel s tunnel serviceId
  | sendData tunnel serviceId data =>
      cases hstep
      unfold Service.sendData
      split
      · exact .refl s
      · next contact hlookup =>
          split
          · exact .refl s
          · next hservice =>
              have hqueued : Network.Queues s (.sendData tunnel serviceId data) = some tunnel :=
                if_pos ⟨by simp [hlookup], not_not.mp hservice⟩
              rw [hqueued] at hqueues
              cases hqueues
  | addVirtualPeer env hash peer dir =>
      cases hstep
      exact quiet_addVirtualPeer s hash peer dir
  | removeVirtualPeer peer =>
      cases hstep
      exact quiet_removeVirtualPeer s peer
  | receiveTurtleData env bytes peer => exact quiet_receiveTurtleData hcarries hstep
  | flush env =>
      cases hstep
      exact quiet_flush hnumbered

/-- A call that queues a data item does nothing else. -/
theorem step_queues {op : Op Secret} {tunnel : TunnelId}
    (hqueues : Network.Queues s op = some tunnel) (hstep : s.step c op = some s') :
    ∃ serviceId data, s' =
      { s with
        currentPacketCounter := Word.add 64 s.currentPacketCounter 1
        pendingDataItems := s.pendingDataItems.insert s.currentPacketCounter
          { peerId := tunnel
            item := .data s.currentPacketCounter 0 serviceId data
            lastSendingAttempt := 0 } } := by
  unfold Network.Queues at hqueues
  split at hqueues
  · next tunnel' serviceId data =>
      split at hqueues
      · next hboth =>
          cases hqueues
          obtain ⟨contact, hlookup⟩ := Option.ne_none_iff_exists'.mp hboth.1
          refine ⟨serviceId, data, ?_⟩
          simpa [Service.step, Service.sendData, hlookup, hboth.2, eq_comm] using hstep
      · cases hqueues
  · cases hqueues

/-! ### Incoming items -/

/-- What a data item does: it is acknowledged in any case, and handed to the client unless its number is
among the prints, or no registered service accepts it. -/
theorem handleRecvTunnelDataItem_cases {tunnel : TunnelId} {k serviceId : Nat} {data : List UInt8}
    {contact : PeerInfo} (hlookup : s.contacts[tunnel]? = some contact)
    (hrecv : s.handleRecvTunnelDataItem env tunnel k serviceId data = some s') :
    s'.pendingDataItems = s.pendingDataItems ∧
      s'.pendingItems = s.pendingItems ++ [(tunnel, .dataAck k)] ∧
      (∀ (other : TunnelId) (contact' : PeerInfo) (j : Nat), s'.contacts[other]? = some contact' →
        j ∈ contact'.receivedDataPrints → other = tunnel ∧ j = k ∨
          ∃ old, s.contacts[other]? = some old ∧ j ∈ old.receivedDataPrints) ∧
      ∃ new, s'.events = s.events ++ new ∧
        (new.any Network.isReceiveData = true ↔ k ∉ contact.receivedDataPrints ∧
          serviceId ∈ s.registeredServices ∧
          env.acceptDataFromPeer serviceId contact.toGxsId tunnel
            (contact.direction = .client) = true) := by
  have hkept : ∀ (contact' : PeerInfo), (∀ j ∈ contact'.receivedDataPrints, j = k ∨
        j ∈ contact.receivedDataPrints) → ∀ (other : TunnelId) (info : PeerInfo) (j : Nat),
      (s.contacts.insert tunnel contact')[other]? = some info → j ∈ info.receivedDataPrints →
        other = tunnel ∧ j = k ∨ ∃ old, s.contacts[other]? = some old ∧ j ∈ old.receivedDataPrints := by
    intro contact' hprints other info j hother hprint
    rw [OrderedMap.lookup_insert] at hother
    split at hother
    · next hsame =>
        cases hother
        rcases hprints j hprint with hnew | hold
        · exact .inl ⟨hsame.symm, hnew⟩
        · exact .inr ⟨contact, hsame ▸ hlookup, hold⟩
    · exact .inr ⟨info, hother, hprint⟩
  unfold Service.handleRecvTunnelDataItem at hrecv
  simp only [Service.pushItem, hlookup] at hrecv
  by_cases hservice : serviceId ∈ s.registeredServices
  · rw [if_neg (not_not.mpr hservice)] at hrecv
    by_cases hprint : k ∈ contact.receivedDataPrints
    · rw [if_pos hprint] at hrecv
      cases hrecv
      refine ⟨rfl, rfl, hkept _ fun j hj => .inr hj, [], by simp [Service.setContact], ?_⟩
      simp [hprint]
    · have hnewPrints : ∀ j ∈ contact.receivedDataPrints.insert k env.now, j = k ∨
          j ∈ contact.receivedDataPrints := by
        intro j hj
        rw [Std.ExtTreeMap.mem_insert] at hj
        exact hj.imp_left fun heq => (Std.LawfulEqCmp.eq_of_compare heq).symm
      rw [if_neg hprint] at hrecv
      split at hrecv
      · next haccept =>
          cases hrecv
          refine ⟨rfl, rfl, hkept _ hnewPrints, _, rfl, ?_⟩
          simpa [Network.isReceiveData, hprint, hservice] using haccept
      · next hrefuse =>
          cases hrecv
          refine ⟨rfl, rfl, hkept _ hnewPrints, [], by simp [Service.setContact], ?_⟩
          simpa [hprint, hservice] using hrefuse
  · rw [if_pos hservice] at hrecv
    cases hrecv
    refine ⟨rfl, rfl, fun other info j hother hprint => .inr ⟨info, hother, hprint⟩, [], by simp, ?_⟩
    simp [hservice]

theorem quiet_handleRecvStatusItem {tunnel : TunnelId} {status : Nat}
    (hrecv : s.handleRecvStatusItem tunnel status = some s') : Quiet s s' := by
  unfold Service.handleRecvStatusItem at hrecv
  split at hrecv
  · split at hrecv
    · cases hrecv
      exact .refl s
    · next contact hlookup =>
        cases hrecv
        apply Quiet.notify
        exact (Quiet.refl s).setContact fun k hprint => ⟨contact, hlookup, hprint⟩
  · split at hrecv
    · split at hrecv
      · cases hrecv
      · cases hrecv
        exact (Quiet.refl s).notify _ _ _
    · cases hrecv
      exact .refl s

theorem quiet_raiseContact (env : Surroundings Secret) {tunnel : TunnelId} {contact : PeerInfo}
    (hlookup : s.contacts[tunnel]? = some contact) : Quiet s (s.raiseContact env tunnel contact) :=
  (Quiet.refl s).setContact fun _ hprint => ⟨contact, hlookup, hprint⟩

end Service

namespace Network

open Transition

variable {Node : Type} [DecidableEq Node] (far : Node → TunnelId → Node)

/-- The item that a number of a node stands for was queued for that tunnel and has arrived. -/
def Answered (w : Network Node Secret) (n : Node) (k : Nat) (tunnel : TunnelId) : Prop :=
  (w.numbered n k).tunnel = tunnel ∧ (⟨n, (w.numbered n k).index⟩, far n tunnel) ∈ w.arrived

/-- The item that is pending under the number has been answered. -/
def AnsweredIfPending (w : Network Node Secret) (n : Node) (k : Nat) (tunnel : TunnelId) : Prop :=
  ∀ tdata, (w.service n).pendingDataItems[k]? = some tdata → w.Answered far n k tunnel

/-- A packet is what it says: a data item is the one its number stands for, an acknowledgement answers
what is pending. -/
def PacketOk (w : Network Node Secret) (p : Packet Node) : Prop :=
  match p.item with
  | .data k _ _ _ => ∃ n, far n p.tunnel = p.dest ∧ (w.numbered n k).tunnel = p.tunnel ∧
      p.origin = some ⟨n, (w.numbered n k).index⟩
  | .dataAck k => p.origin = none ∧ w.AnsweredIfPending far p.dest k p.tunnel
  | _ => p.origin = none

structure Consistent (w : Network Node Secret) : Prop where
  wellNumbered : ∀ n, (w.service n).WellNumbered
  packet : ∀ p ∈ w.inFlight, w.PacketOk far p
  pending : ∀ n k tdata, (w.service n).pendingDataItems[k]? = some tdata →
    tdata.peerId = (w.numbered n k).tunnel
  waiting : ∀ m tunnel k, (tunnel, .dataAck k) ∈ (w.service m).pendingItems →
    w.AnsweredIfPending far (far m tunnel) k tunnel
  prints : ∀ m tunnel (contact : PeerInfo) k, (w.service m).contacts[tunnel]? = some contact →
    k ∈ contact.receivedDataPrints → (w.numbered (far m tunnel) k).tunnel = tunnel →
      (⟨far m tunnel, (w.numbered (far m tunnel) k).index⟩, m) ∈ w.arrived
  handed : ∀ arrival, w.handed.count arrival = if arrival ∈ w.arrived then 1 else 0
  removed : ∀ r ∈ w.removed, r.ackTunnel = r.itemTunnel ∧
    (r.origin, far r.origin.node r.itemTunnel) ∈ w.arrived

theorem consistent_initial : Consistent far (initial : Network Node Secret) where
  wellNumbered := fun _ =>
    ⟨fun k tdata hlookup => by simp [initial, Service.initial] at hlookup,
      fun entry hmem => by simp [initial, Service.initial] at hmem⟩
  packet := fun p hmem => by simp [initial] at hmem
  pending := fun n k tdata hlookup => by simp [initial, Service.initial] at hlookup
  waiting := fun m tunnel k hmem => by simp [initial, Service.initial] at hmem
  prints := fun m tunnel contact k hlookup => by simp [initial, Service.initial] at hlookup
  handed := fun arrival => by simp [initial]
  removed := fun r hmem => by simp [initial] at hmem

theorem Consistent.deliveredOnce {w : Network Node Secret} (hconsistent : Consistent far w) :
    DeliveredOnce far w := by
  intro r hmem
  obtain ⟨htunnel, harrived⟩ := hconsistent.removed r hmem
  exact ⟨htunnel, by rw [hconsistent.handed, if_pos harrived]⟩

variable {far} {w w' : Network Node Secret} {n : Node} {s' : Service Secret}

@[simp]
theorem service_setService (w : Network Node Secret) (n : Node) (s : Service Secret) :
    (w.setService n s).service n = s := Function.update_self ..

theorem service_setService_of_ne (w : Network Node Secret) (s : Service Secret) {n m : Node}
    (hne : m ≠ n) : (w.setService n s).service m = w.service m := Function.update_of_ne hne ..

theorem numbered_setService (w : Network Node Secret) (n : Node) (s : Service Secret) :
    (w.setService n s).numbered = w.numbered := rfl

theorem arrived_setService (w : Network Node Secret) (n : Node) (s : Service Secret) :
    (w.setService n s).arrived = w.arrived := rfl

/-- What is pending after a calm change of one node was pending before. -/
theorem pending_setService (hcalm : (w.service n).Calm s') {m : Node} {k : Nat}
    {tdata' : TunnelData}
    (hlookup : ((w.setService n s').service m).pendingDataItems[k]? = some tdata') :
    ∃ tdata, (w.service m).pendingDataItems[k]? = some tdata ∧ tdata'.peerId = tdata.peerId := by
  by_cases hsame : m = n
  · subst hsame
    rw [service_setService] at hlookup
    obtain ⟨tdata, hold, hpeer, -⟩ := hcalm.pending k tdata' hlookup
    exact ⟨tdata, hold, hpeer⟩
  · rw [service_setService_of_ne _ _ hsame] at hlookup
    exact ⟨tdata', hlookup, rfl⟩

theorem AnsweredIfPending.setService (hcalm : (w.service n).Calm s') {m : Node} {k : Nat}
    {tunnel : TunnelId} (hanswered : w.AnsweredIfPending far m k tunnel) :
    (w.setService n s').AnsweredIfPending far m k tunnel := by
  intro tdata' hlookup
  obtain ⟨tdata, hold, -⟩ := pending_setService hcalm hlookup
  exact hanswered tdata hold

omit [DecidableEq Node] in
/-- A change that keeps what the numbers in flight stand for, and answers what it makes pending. -/
theorem PacketOk.mono {p : Packet Node} (hok : w.PacketOk far p)
    (hdata : ∀ n k flags serviceId data i, p.item = .data k flags serviceId data →
      p.origin = some ⟨n, i⟩ → w'.numbered n k = w.numbered n k)
    (hack : ∀ k, p.item = .dataAck k → w.AnsweredIfPending far p.dest k p.tunnel →
      w'.AnsweredIfPending far p.dest k p.tunnel) : w'.PacketOk far p := by
  cases hitem : p.item with
  | data k flags serviceId data =>
      simp only [PacketOk, hitem] at hok ⊢
      obtain ⟨n, hdest, htunnel, horigin⟩ := hok
      have hsame := hdata n k flags serviceId data _ hitem horigin
      exact ⟨n, hdest, by rw [hsame, htunnel], by rw [hsame, horigin]⟩
  | dhPublicKey item =>
      simp only [PacketOk, hitem] at hok ⊢
      exact hok
  | status status =>
      simp only [PacketOk, hitem] at hok ⊢
      exact hok
  | dataAck k =>
      simp only [PacketOk, hitem] at hok ⊢
      exact ⟨hok.1, hack k hitem hok.2⟩

theorem PacketOk.setService (hcalm : (w.service n).Calm s') {p : Packet Node}
    (hok : w.PacketOk far p) : (w.setService n s').PacketOk far p :=
  hok.mono (fun _ _ _ _ _ _ _ _ => rfl) fun _ _ hanswered => hanswered.setService hcalm

/-- A calm change of one node keeps everything consistent. -/
theorem Consistent.setService (hconsistent : Consistent far w)
    (hcalm : (w.service n).Calm s') : Consistent far (w.setService n s') where
  wellNumbered := fun m => by
    by_cases hsame : m = n
    · subst hsame
      rw [service_setService]
      exact (hconsistent.wellNumbered m).calm hcalm
    · rw [service_setService_of_ne _ _ hsame]
      exact hconsistent.wellNumbered m
  packet := fun p hmem => (hconsistent.packet p hmem).setService hcalm
  pending := fun m k tdata' hlookup => by
    obtain ⟨tdata, hold, hpeer⟩ := pending_setService hcalm hlookup
    rw [hpeer]
    exact hconsistent.pending m k tdata hold
  waiting := fun m tunnel k hmem => by
    apply AnsweredIfPending.setService hcalm
    by_cases hsame : m = n
    · subst hsame
      rw [service_setService] at hmem
      exact hconsistent.waiting m tunnel k (hcalm.acks tunnel k hmem)
    · rw [service_setService_of_ne _ _ hsame] at hmem
      exact hconsistent.waiting m tunnel k hmem
  prints := fun m tunnel contact k hlookup hprint => by
    by_cases hsame : m = n
    · subst hsame
      rw [service_setService] at hlookup
      obtain ⟨old, hold, holdprint⟩ := hcalm.prints tunnel contact k hlookup hprint
      exact hconsistent.prints m tunnel old k hold holdprint
    · rw [service_setService_of_ne _ _ hsame] at hlookup
      exact hconsistent.prints m tunnel contact k hlookup hprint
  handed := hconsistent.handed
  removed := hconsistent.removed

/-- Packets may be added when they are what they say, and any may be lost. -/
theorem Consistent.withPackets (hconsistent : Consistent far w) {packets : List (Packet Node)}
    (hok : ∀ p ∈ packets, w.PacketOk far p) : Consistent far { w with inFlight := packets } where
  wellNumbered := hconsistent.wellNumbered
  packet := fun p hmem => (hok p hmem).mono (fun _ _ _ _ _ _ _ _ => rfl) fun _ _ => id
  pending := hconsistent.pending
  waiting := hconsistent.waiting
  prints := hconsistent.prints
  handed := hconsistent.handed
  removed := hconsistent.removed

/-- The packet made of a queued item is what it says. -/
theorem packetOk_packetOf (hconsistent : Consistent far w) {event : Event} {p : Packet Node}
    (hqueued : (w.service n).Queued event)
    (hpacket : packetOf far n (w.numbered n) event = some p) : w.PacketOk far p := by
  cases event with
  | encrypted tunnel toGxsId key item =>
      cases item with
      | data k flags serviceId data =>
          cases hpacket
          obtain ⟨tdata, hlookup, hpeer⟩ := hqueued
          exact ⟨n, rfl, (hconsistent.pending n k tdata hlookup).symm.trans hpeer, rfl⟩
      | dhPublicKey item =>
          cases hpacket
          rfl
      | status status =>
          cases hpacket
          rfl
      | dataAck k =>
          cases hpacket
          exact ⟨rfl, hconsistent.waiting n tunnel k hqueued⟩
  | _ => cases hpacket

theorem newEvents_eq {s s' : Service Secret} {new : List Event}
    (hnew : s'.events = s.events ++ new) : newEvents s s' = new := by
  rw [newEvents, hnew, List.drop_left]

/-! ### Calls -/

theorem Consistent.call_quiet {c : Crypto Secret} {op : Service.Op Secret}
    (hconsistent : Consistent far w) (hcarries : CarriesNoItem op)
    (hqueues : Queues (w.service n) op = none) (hcall : w.call c far n op = some w') :
    Consistent far w' := by
  unfold call at hcall
  obtain ⟨s', hstep, hrest⟩ := Option.bind_eq_some_iff.mp hcall
  simp only [hqueues] at hrest
  cases hrest
  have hquiet := Service.quiet_step (hconsistent.wellNumbered n) hcarries hqueues hstep
  obtain ⟨new, hnew, hqueued⟩ := hquiet.events
  refine (hconsistent.setService hquiet.toCalm).withPackets fun p hmem => ?_
  rcases List.mem_append.mp hmem with hold | hmem
  · exact (hconsistent.packet p hold).setService hquiet.toCalm
  · rw [newEvents_eq hnew] at hmem
    obtain ⟨event, hevent, hpacket⟩ := List.mem_filterMap.mp hmem
    exact (packetOk_packetOf hconsistent (hqueued event hevent) hpacket).setService hquiet.toCalm

theorem numbered_nameItem (w : Network Node Secret) (n : Node) (tunnel : TunnelId) (m : Node)
    (k : Nat) :
    (w.nameItem n tunnel).numbered m k =
      if m = n ∧ k = (w.service n).currentPacketCounter then ⟨w.queued n, tunnel⟩
      else w.numbered m k := by
  unfold nameItem
  by_cases hsame : m = n
  · subst hsame
    by_cases hk : k = (w.service m).currentPacketCounter
    · simp [hk]
    · simp [hk]
  · simp [hsame]

theorem arrived_nameItem (w : Network Node Secret) (n : Node) (tunnel : TunnelId) :
    (w.nameItem n tunnel).arrived = w.arrived := rfl

theorem service_nameItem (w : Network Node Secret) (n : Node) (tunnel : TunnelId) :
    (w.nameItem n tunnel).service = w.service := rfl

/-- A number that is free may be given to a new item. -/
theorem Consistent.call_queues {c : Crypto Secret} {op : Service.Op Secret} {tunnel : TunnelId}
    (hfar : ∀ n tunnel, far (far n tunnel) tunnel = n) (hconsistent : Consistent far w)
    (hqueues : Queues (w.service n) op = some tunnel)
    (hfree : w.NumberFree far n (w.service n).currentPacketCounter tunnel)
    (hcall : w.call c far n op = some w') : Consistent far w' := by
  unfold call at hcall
  obtain ⟨s', hstep, hrest⟩ := Option.bind_eq_some_iff.mp hcall
  simp only [hqueues] at hrest
  cases hrest
  obtain ⟨serviceId, data, hs'⟩ := Service.step_queues hqueues hstep
  have hitems : s'.pendingItems = (w.service n).pendingItems := by rw [hs']
  have hcontacts : s'.contacts = (w.service n).contacts := by rw [hs']
  have hpending : s'.pendingDataItems = (w.service n).pendingDataItems.insert
      (w.service n).currentPacketCounter
      { peerId := tunnel
        item := .data (w.service n).currentPacketCounter 0 serviceId data
        lastSendingAttempt := 0 } := by rw [hs']
  have hnone : newEvents (w.service n) s' = [] := by
    rw [newEvents, hs']
    exact List.drop_length
  generalize hcounter : (w.service n).currentPacketCounter = number at hfree hpending
  have hother (m : Node) (k : Nat) (hne : ¬ (m = n ∧ k = number)) :
      (w.nameItem n tunnel).numbered m k = w.numbered m k := by
    rw [numbered_nameItem, hcounter, if_neg hne]
  have hsame : (w.nameItem n tunnel).numbered n number = ⟨w.queued n, tunnel⟩ := by
    rw [numbered_nameItem, hcounter, if_pos ⟨rfl, rfl⟩]
  have hlookup (m : Node) (k : Nat) (tdata : TunnelData)
      (hpend : (((w.nameItem n tunnel).setService n s').service m).pendingDataItems[k]? = some tdata) :
      (m = n ∧ k = number ∧ tdata.peerId = tunnel ∧
          ∃ flags serviceId data, tdata.item = .data number flags serviceId data) ∨
        ¬ (m = n ∧ k = number) ∧ (w.service m).pendingDataItems[k]? = some tdata := by
    by_cases hm : m = n
    · subst hm
      rw [service_setService, hpending, OrderedMap.lookup_insert] at hpend
      split at hpend
      · next hk =>
          cases hpend
          exact .inl ⟨rfl, hk.symm, rfl, 0, serviceId, data, rfl⟩
      · next hk => exact .inr ⟨fun h => hk h.2.symm, hpend⟩
    · rw [service_setService_of_ne _ _ hm] at hpend
      exact .inr ⟨fun h => hm h.1, hpend⟩
  have hanswered (m : Node) (k : Nat) (tunnel' : TunnelId) (hne : ¬ (m = n ∧ k = number))
      (hold : w.AnsweredIfPending far m k tunnel') :
      ((w.nameItem n tunnel).setService n s').AnsweredIfPending far m k tunnel' := by
    intro tdata hpend
    rcases hlookup m k tdata hpend with ⟨hm, hk, -⟩ | ⟨-, hpend⟩
    · exact absurd ⟨hm, hk⟩ hne
    · obtain ⟨htunnel, harrived⟩ := hold tdata hpend
      unfold Answered
      rw [numbered_setService, arrived_setService, arrived_nameItem, hother m k hne]
      exact ⟨htunnel, harrived⟩
  rw [hnone, List.filterMap_nil, List.append_nil]
  refine
    { wellNumbered := fun m => ⟨fun k tdata hpend => ?_, ?_⟩
      packet := fun p hmem => (hconsistent.packet p hmem).mono ?_ ?_
      pending := fun m k tdata hpend => ?_
      waiting := fun m tunnel' k hmem => ?_
      prints := fun m tunnel' contact k hcontact hprint htunnel => ?_
      handed := hconsistent.handed
      removed := hconsistent.removed }
  · rcases hlookup m k tdata hpend with ⟨-, rfl, -, hitem⟩ | ⟨-, hpend⟩
    · exact hitem
    · exact (hconsistent.wellNumbered m).number k tdata hpend
  · by_cases hm : m = n
    · subst hm
      rw [service_setService, hitems]
      exact (hconsistent.wellNumbered m).noData
    · rw [service_setService_of_ne _ _ hm]
      exact (hconsistent.wellNumbered m).noData
  · intro m k flags serviceId data i hitem horigin
    apply hother
    rintro ⟨rfl, rfl⟩
    exact hfree.data p hmem _ horigin rfl flags serviceId data hitem
  · intro k hitem hold
    apply hanswered _ _ _ ?_ hold
    rintro ⟨hm, rfl⟩
    exact hfree.ack p hmem hm hitem
  · rcases hlookup m k tdata hpend with ⟨rfl, rfl, hpeer, -⟩ | ⟨hne, hpend⟩
    · rw [hpeer]
      exact (congrArg Numbered.tunnel hsame).symm
    · rw [hconsistent.pending m k tdata hpend]
      exact (congrArg Numbered.tunnel (hother m k hne)).symm
  · have hmem : (tunnel', Item.dataAck k) ∈ (w.service m).pendingItems := by
      by_cases hm : m = n
      · subst hm
        rwa [service_setService, hitems] at hmem
      · rwa [service_setService_of_ne _ _ hm, service_nameItem] at hmem
    apply hanswered _ _ _ ?_ (hconsistent.waiting m tunnel' k hmem)
    rintro ⟨hm, rfl⟩
    exact hfree.waiting m tunnel' hm hmem
  · have hcontact : (w.service m).contacts[tunnel']? = some contact := by
      by_cases hm : m = n
      · subst hm
        rwa [service_setService, hcontacts] at hcontact
      · rwa [service_setService_of_ne _ _ hm, service_nameItem] at hcontact
    by_cases hne : far m tunnel' = n ∧ k = number
    · obtain ⟨hm, rfl⟩ := hne
      rw [numbered_setService, hm, hsame] at htunnel
      dsimp only at htunnel
      have hfarm : far n tunnel = m := by rw [htunnel, ← hm, hfar]
      rw [← htunnel, ← hfarm] at hcontact
      exact absurd hprint (hfree.prints contact hcontact)
    · rw [numbered_setService, hother _ _ hne] at htunnel ⊢
      exact hconsistent.prints m tunnel' contact k hcontact hprint htunnel

/-- A node that restarts forgets; it promises nothing that it did not before. -/
theorem Consistent.restart (hconsistent : Consistent far w) (n : Node) :
    Consistent far (w.setService n Service.initial) := by
  apply hconsistent.setService
  exact
    { acks := fun tunnel k hmem => by simp [Service.initial] at hmem
      noData := fun entry hmem => by simp [Service.initial] at hmem
      pending := fun k tdata hlookup => by simp [Service.initial] at hlookup
      prints := fun tunnel contact k hlookup => by simp [Service.initial] at hlookup }

/-! ### Deliveries -/

/-- An acknowledgement removes what it answers. -/
theorem removals_arrived (hconsistent : Consistent far w) {p : Packet Node}
    (hok : w.PacketOk far p) {r : Removal Node} (hmem : r ∈ w.removals p) :
    r.ackTunnel = r.itemTunnel ∧ (r.origin, far r.origin.node r.itemTunnel) ∈ w.arrived := by
  unfold removals at hmem
  cases hitem : p.item with
  | dataAck k =>
      simp only [hitem] at hmem
      cases hlookup : (w.service p.dest).pendingDataItems[k]? with
      | none => simp [hlookup] at hmem
      | some tdata =>
          simp only [hlookup, List.mem_singleton] at hmem
          simp only [PacketOk, hitem] at hok
          obtain ⟨htunnel, harrived⟩ := hok.2 tdata hlookup
          have hpeer := (hconsistent.pending p.dest k tdata hlookup).trans htunnel
          rw [hmem]
          exact ⟨hpeer.symm, by rw [hpeer]; exact harrived⟩
  | _ => simp [hitem] at hmem

theorem Consistent.withRemovals (hconsistent : Consistent far w) {removed : List (Removal Node)}
    (hremoved : ∀ r ∈ removed, r.ackTunnel = r.itemTunnel ∧
      (r.origin, far r.origin.node r.itemTunnel) ∈ w.arrived) :
    Consistent far { w with removed := w.removed ++ removed } where
  wellNumbered := hconsistent.wellNumbered
  packet := fun p hmem =>
    (hconsistent.packet p hmem).mono (fun _ _ _ _ _ _ _ _ => rfl) fun _ _ => id
  pending := hconsistent.pending
  waiting := hconsistent.waiting
  prints := hconsistent.prints
  handed := hconsistent.handed
  removed := fun r hmem =>
    (List.mem_append.mp hmem).elim (hconsistent.removed r) (hremoved r)

/-- What is not a data item changes a node calmly. -/
theorem calm_handleIncomingItem {env : Surroundings Secret} {s s' : Service Secret}
    {tunnel : TunnelId} {contact : PeerInfo} {item : Item}
    (hlookup : s.contacts[tunnel]? = some contact) (hitem : item.isData = false)
    (hhandle : (s.raiseContact env tunnel contact).handleIncomingItem env tunnel item = some s') :
    s.Calm s' := by
  have hraised := Service.quiet_raiseContact env hlookup
  unfold Service.handleIncomingItem at hhandle
  cases item with
  | data => cases hitem
  | dhPublicKey item =>
      cases hhandle
      exact hraised.toCalm
  | status status => exact (hraised.trans (Service.quiet_handleRecvStatusItem hhandle)).toCalm
  | dataAck k =>
      cases hhandle
      exact
        { acks := hraised.acks
          noData := hraised.noData
          pending := fun j tdata hpend => by
            simp only [Service.handleRecvTunnelDataAckItem, OrderedMap.lookup_erase] at hpend
            split at hpend
            · cases hpend
            · exact hraised.pending j tdata hpend
          prints := hraised.prints }

/-- The packet of an item that is not a data item hands nothing to a client. -/
theorem Consistent.receive_quiet {env : Surroundings Secret} {p : Packet Node}
    {contact : PeerInfo} (hconsistent : Consistent far w) (hok : w.PacketOk far p)
    (hlookup : (w.service p.dest).contacts[p.tunnel]? = some contact)
    (hitem : p.item.isData = false) (hrecv : w.receive p env = some w') : Consistent far w' := by
  have horigin : p.origin = none := by
    unfold PacketOk at hok
    split at hok
    · next heq =>
        rw [heq] at hitem
        cases hitem
    · exact hok.1
    · exact hok
  simp only [receive, hlookup, horigin] at hrecv
  obtain ⟨s', hhandle, hrest⟩ := Option.bind_eq_some_iff.mp hrecv
  have hcalm := calm_handleIncomingItem hlookup hitem hhandle
  have hremoved : ∀ r ∈ w.removals p, r.ackTunnel = r.itemTunnel ∧
      (r.origin, far r.origin.node r.itemTunnel) ∈ (w.setService p.dest s').arrived :=
    fun r hmem => removals_arrived hconsistent hok hmem
  have hafter := (hconsistent.setService hcalm).withRemovals hremoved
  simp only [Option.toList_none, List.map_nil, List.append_nil, ite_self] at hrest
  cases hrest
  exact hafter

/-- A data item that arrives is handed to the client if it did not arrive before. -/
theorem Consistent.receive_data {env : Surroundings Secret} {p : Packet Node}
    {contact : PeerInfo} {k flags serviceId : Nat} {data : List UInt8}
    (hfar : ∀ n tunnel, far (far n tunnel) tunnel = n) (hconsistent : Consistent far w)
    (hok : w.PacketOk far p) (htaken : w.TakenBy env p)
    (hlookup : (w.service p.dest).contacts[p.tunnel]? = some contact)
    (hitem : p.item = .data k flags serviceId data) (hrecv : w.receive p env = some w') :
    Consistent far w' := by
  simp only [PacketOk, hitem] at hok
  obtain ⟨n, hdest, htunnel, horigin⟩ := hok
  have hback : far p.dest p.tunnel = n := by rw [← hdest, hfar]
  have hagain := htaken.again contact k flags serviceId data _ hlookup hitem horigin
  have hfirst := htaken.first contact k flags serviceId data hlookup hitem
  generalize hdef : (⟨n, (w.numbered n k).index⟩ : Origin Node) = origin at horigin hagain
  simp only [receive, hlookup, horigin, removals, hitem] at hrecv
  obtain ⟨s', hhandle, hrest⟩ := Option.bind_eq_some_iff.mp hrecv
  have hraised : ((w.service p.dest).raiseContact env p.tunnel contact).contacts[p.tunnel]? =
      some { contact with status := .canTalk, lastContact := env.now } := by
    simp [Service.raiseContact, Service.setContact]
  obtain ⟨hpending, hitems, hprints, new, hnew, hhands⟩ :=
    Service.handleRecvTunnelDataItem_cases hraised hhandle
  replace hpending : s'.pendingDataItems = (w.service p.dest).pendingDataItems := hpending
  replace hitems : s'.pendingItems =
      (w.service p.dest).pendingItems ++ [(p.tunnel, .dataAck k)] := hitems
  rw [newEvents_eq (s := w.service p.dest) hnew] at hrest
  simp only [Option.toList_some, List.map_cons, List.map_nil, List.append_nil] at hrest
  have hpend (m : Node) : ((w.setService p.dest s').service m).pendingDataItems =
      (w.service m).pendingDataItems := by
    by_cases hm : m = p.dest
    · subst hm
      rw [service_setService, hpending]
    · rw [service_setService_of_ne _ _ hm]
  have hanswered (m : Node) (j : Nat) (tunnel : TunnelId)
      (hold : w.AnsweredIfPending far m j tunnel) : w'.AnsweredIfPending far m j tunnel := by
    cases hrest
    intro tdata hpend'
    have hpend' : ((w.setService p.dest s').service m).pendingDataItems[j]? = some tdata := hpend'
    rw [hpend] at hpend'
    exact ⟨(hold tdata hpend').1, List.mem_append_left _ (hold tdata hpend').2⟩
  have harrived : (origin, p.dest) ∈ w'.arrived := by
    cases hrest
    exact List.mem_append_right _ (List.mem_singleton_self _)
  have hnumbered : w'.numbered = w.numbered := by
    cases hrest
    rfl
  have hthis : w'.Answered far n k p.tunnel := by
    unfold Answered
    rw [hnumbered, htunnel, hdef, hdest]
    exact ⟨rfl, harrived⟩
  have hnewly : new.any isReceiveData = true ↔ (origin, p.dest) ∉ w.arrived := by
    rw [hhands]
    constructor
    · rintro ⟨hprint, -⟩ hold
      exact hprint (hagain hold)
    · intro hold
      have hprint : k ∉ contact.receivedDataPrints := by
        intro hprint
        have harrived := hconsistent.prints p.dest p.tunnel contact k hlookup hprint
        rw [hback, hdef] at harrived
        exact hold (harrived htunnel)
      exact ⟨hprint, hfirst hprint⟩
  have hhanded : ∀ arrival, w'.handed.count arrival = if arrival ∈ w'.arrived then 1 else 0 := by
    intro arrival
    cases hrest
    have hold := hconsistent.handed arrival
    by_cases hsame : arrival = (origin, p.dest)
    · subst hsame
      by_cases hbefore : (origin, p.dest) ∈ w.arrived
      · have hagain : new.any isReceiveData = false := by
          rw [← Bool.not_eq_true, hnewly]
          exact not_not.mpr hbefore
        simp [hagain, hold, hbefore]
      · simp [hnewly.mpr hbefore, hold, hbefore]
    · have hcount : (if new.any isReceiveData = true then [(origin, p.dest)] else []).count arrival =
          0 := by
        rw [List.count_eq_zero]
        split
        · simp [hsame]
        · simp
      rw [List.count_append, hcount, hold, Nat.add_zero]
      simp [hsame]
  cases hrest
  exact
    { wellNumbered := fun m => by
        by_cases hm : m = p.dest
        · subst hm
          have hold := hconsistent.wellNumbered p.dest
          refine ⟨fun j tdata hpend' => hold.number j tdata ?_, fun entry hmem => ?_⟩
          · rw [← hpend]
            exact hpend'
          · have hmem : entry ∈ ((w.setService p.dest s').service p.dest).pendingItems := hmem
            rw [service_setService, hitems, List.mem_append, List.mem_singleton] at hmem
            rcases hmem with hmem | rfl
            · exact hold.noData entry hmem
            · rfl
        · have hsame := service_setService_of_ne w s' hm
          exact hsame.symm ▸ hconsistent.wellNumbered m
      packet := fun p' hmem =>
        (hconsistent.packet p' hmem).mono (fun _ _ _ _ _ _ _ _ => rfl) fun j _ => hanswered _ j _
      pending := fun m j tdata hpend' => by
        have hpend' : ((w.setService p.dest s').service m).pendingDataItems[j]? = some tdata := hpend'
        rw [hpend] at hpend'
        exact hconsistent.pending m j tdata hpend'
      waiting := fun m tunnel j hmem => by
        have hmem : (tunnel, Item.dataAck j) ∈ ((w.setService p.dest s').service m).pendingItems :=
          hmem
        by_cases hm : m = p.dest
        · subst hm
          rw [service_setService, hitems, List.mem_append, List.mem_singleton] at hmem
          rcases hmem with hmem | hnew
          · exact hanswered _ _ _ (hconsistent.waiting p.dest tunnel j hmem)
          · cases hnew
            rw [hback]
            exact fun _ _ => hthis
        · rw [service_setService_of_ne _ _ hm] at hmem
          exact hanswered _ _ _ (hconsistent.waiting m tunnel j hmem)
      prints := fun m tunnel contact' j hcontact hprint htunnel' => by
        have hcontact : ((w.setService p.dest s').service m).contacts[tunnel]? = some contact' :=
          hcontact
        by_cases hm : m = p.dest
        · subst hm
          rw [service_setService] at hcontact
          rcases hprints tunnel contact' j hcontact hprint with ⟨rfl, rfl⟩ | ⟨old, hold, hprint⟩
          · rw [hback, hnumbered, hdef]
            exact harrived
          · obtain ⟨older, holder, hprint⟩ :=
              (Service.quiet_raiseContact env hlookup).prints tunnel old j hold hprint
            exact List.mem_append_left _
              (hconsistent.prints p.dest tunnel older j holder hprint htunnel')
        · rw [service_setService_of_ne _ _ hm] at hcontact
          exact List.mem_append_left _
            (hconsistent.prints m tunnel contact' j hcontact hprint htunnel')
      handed := hhanded
      removed := fun r hmem => by
        have hold := hconsistent.removed r hmem
        exact ⟨hold.1, List.mem_append_left _ hold.2⟩ }

theorem Consistent.receive {env : Surroundings Secret} {p : Packet Node}
    (hfar : ∀ n tunnel, far (far n tunnel) tunnel = n) (hconsistent : Consistent far w)
    (hok : w.PacketOk far p) (htaken : w.TakenBy env p) (hrecv : w.receive p env = some w') :
    Consistent far w' := by
  cases hlookup : (w.service p.dest).contacts[p.tunnel]? with
  | none =>
      simp only [Network.receive, hlookup] at hrecv
      cases hrecv
      exact hconsistent
  | some contact =>
      cases hitem : p.item with
      | data k flags serviceId data =>
          exact hconsistent.receive_data hfar hok htaken hlookup hitem hrecv
      | dhPublicKey item =>
          exact hconsistent.receive_quiet hok hlookup (by rw [hitem]; rfl) hrecv
      | status status => exact hconsistent.receive_quiet hok hlookup (by rw [hitem]; rfl) hrecv
      | dataAck k => exact hconsistent.receive_quiet hok hlookup (by rw [hitem]; rfl) hrecv

theorem Consistent.lose (hconsistent : Consistent far w) (place : Nat) :
    Consistent far { w with inFlight := w.inFlight.eraseIdx place } :=
  hconsistent.withPackets fun p hmem => hconsistent.packet p (List.mem_of_mem_eraseIdx hmem)

/-- Steps whose numbers are fresh and whose data items are taken keep everything consistent. -/
theorem Consistent.step {c : Crypto Secret} {op : Op Node Secret}
    (hfar : ∀ n tunnel, far (far n tunnel) tunnel = n) (hconsistent : Consistent far w)
    (hdelivery : ByDelivery op) (hfresh : w.NumbersFresh far op) (htaken : w.Taken op)
    (hstep : w.step c far op = some w') : Consistent far w' := by
  cases op with
  | call n op =>
      cases hqueues : Queues (w.service n) op with
      | none => exact hconsistent.call_quiet hdelivery hqueues hstep
      | some tunnel => exact hconsistent.call_queues hfar hqueues (hfresh tunnel hqueues) hstep
  | deliver place env =>
      obtain ⟨p, hplace, hrecv⟩ := Option.bind_eq_some_iff.mp hstep
      have hok := hconsistent.packet p (List.mem_of_getElem? hplace)
      have hlost : PacketOk far { w with inFlight := w.inFlight.eraseIdx place } p :=
        hok.mono (fun _ _ _ _ _ _ _ _ => rfl) fun _ _ => id
      have htakenBy := htaken p hplace
      exact (hconsistent.lose place).receive hfar hlost ⟨htakenBy.again, htakenBy.first⟩ hrecv
  | lose place =>
      cases hstep
      exact hconsistent.lose place
  | restart n =>
      cases hstep
      exact hconsistent.restart n

/-- While numbers are fresh when they are given and data items are taken when they come, an
acknowledgement removes what was handed to the client at the far end once. -/
theorem deliveredOnce_of_reaches (c : Crypto Secret)
    (hfar : ∀ n tunnel, far (far n tunnel) tunnel = n)
    (hrun : Reaches (step c far) (fun w op => ByDelivery op ∧ w.NumbersFresh far op ∧ w.Taken op)
      initial w) : DeliveredOnce far w := by
  have hconsistent : Consistent far w := by
    apply hrun.invariant (Consistent far) ?_ (consistent_initial far)
    rintro before op after hbefore ⟨hdelivery, hfresh, htaken⟩ hstep
    exact hbefore.step hfar hdelivery hfresh htaken hstep
  exact hconsistent.deliveredOnce

/-! ### Two nodes -/

open Service (sampleCrypto sampleSurroundings samplePacket sampleId sampleHash)

omit [DecidableEq Node] in
theorem numberFree_of_idle {number : Nat} {tunnel : TunnelId} (hinFlight : w.inFlight = [])
    (hwaiting : ∀ m, (w.service m).pendingItems = [])
    (hcontact : (w.service (far n tunnel)).contacts[tunnel]? = none) :
    w.NumberFree far n number tunnel where
  data := by simp [hinFlight]
  ack := by simp [hinFlight]
  waiting := by simp [hwaiting]
  prints := by simp [hcontact]

omit [DecidableEq Node] in
theorem taken_of_new {place : Nat} {env : Surroundings Secret} {p : Packet Node}
    {k flags serviceId : Nat} {data : List UInt8} (hplace : w.inFlight[place]? = some p)
    (hnew : w.arrived = []) (hitem : p.item = .data k flags serviceId data)
    (hservice : serviceId ∈ (w.service p.dest).registeredServices)
    (haccept : ∀ id tunnel client, env.acceptDataFromPeer serviceId id tunnel client = true) :
    w.Taken (.deliver place env) := by
  intro p' hplace'
  cases hplace.symm.trans hplace'
  refine ⟨fun _ _ _ _ _ _ _ _ _ hold => ?_, fun _ _ _ _ _ _ hitem' _ => ?_⟩
  · rw [hnew] at hold
    cases hold
  · cases hitem.symm.trans hitem'
    exact ⟨hservice, haccept _ _ _⟩

omit [DecidableEq Node] in
theorem taken_of_not_data {place : Nat} {env : Surroundings Secret} {p : Packet Node}
    (hplace : w.inFlight[place]? = some p) (hitem : p.item.isData = false) :
    w.Taken (.deliver place env) := by
  intro p' hplace'
  cases hplace.symm.trans hplace'
  have hnodata (k flags serviceId : Nat) (data : List UInt8) :
      p.item ≠ .data k flags serviceId data := by
    intro hdata
    rw [hdata] at hitem
    cases hitem
  exact ⟨fun _ _ _ _ _ _ _ hdata => absurd hdata (hnodata _ _ _ _),
    fun _ _ _ _ _ _ hdata => absurd hdata (hnodata _ _ _ _)⟩

def sampleFar (n : Bool) (_ : TunnelId) : Bool := !n

/-- A moment at which queued data items are sent. -/
def sampleSending : Surroundings Nat := { sampleSurroundings 3 with now := 15 }

set_option maxRecDepth 4000 in
/-- One data item is sent, handed to the service that is registered, acknowledged and removed. -/
theorem deliveredOnce_sample :
    ∃ w : Network Bool Nat, Reaches (step sampleCrypto sampleFar)
        (fun w op => ByDelivery op ∧ w.NumbersFresh sampleFar op ∧ w.Taken op) initial w ∧
      DeliveredOnce sampleFar w ∧ w.removed.length = 1 := by
  have hrun : ∃ w : Network Bool Nat, Reaches (step sampleCrypto sampleFar)
        (fun w op => ByDelivery op ∧ w.NumbersFresh sampleFar op ∧ w.Taken op) initial w ∧
      w.removed.length = 1 :=
    ⟨_, .next (.deliver 2 sampleSending)
        (.next (.call true (.flush sampleSending))
          (.next (.deliver 1 sampleSending)
            (.next (.call false (.flush sampleSending))
              (.next (.call true (.receiveTurtleData (sampleSurroundings 2)
                  (samplePacket (sampleId 1) 5) (sampleId 9)))
                (.next (.call false (.receiveTurtleData (sampleSurroundings 1)
                    (samplePacket (sampleId 2) 2) (sampleId 9)))
                  (.next (.call true (.addVirtualPeer (sampleSurroundings 2) sampleHash
                      (sampleId 9) .client))
                    (.next (.call false (.addVirtualPeer (sampleSurroundings 1) sampleHash
                        (sampleId 9) .server))
                      (.next (.call false (.sendData (sampleId 1) 7 [1]))
                        (.next (.call false (.requestSecuredTunnel (sampleSurroundings 1)
                            (sampleId 2) (sampleId 1) 7))
                          (.next (.call true (.registerClientService 7))
                            (.next (.call false (.registerClientService 7)) (.refl _)
                              ⟨trivial, nofun, trivial⟩ rfl)
                            ⟨trivial, nofun, trivial⟩ rfl)
                          ⟨trivial, nofun, trivial⟩ rfl)
                        ⟨trivial, fun _ _ => numberFree_of_idle rfl (fun m => by cases m <;> rfl) rfl,
                          trivial⟩ rfl)
                      ⟨trivial, nofun, trivial⟩ rfl)
                    ⟨trivial, nofun, trivial⟩ rfl)
                  ⟨rfl, nofun, trivial⟩ rfl)
                ⟨rfl, nofun, trivial⟩ rfl)
              ⟨trivial, nofun, trivial⟩ rfl)
            ⟨trivial, trivial, taken_of_new rfl rfl rfl (by decide) fun _ _ _ => rfl⟩ rfl)
          ⟨trivial, nofun, trivial⟩ rfl)
        ⟨trivial, trivial, taken_of_not_data rfl rfl⟩ rfl, rfl⟩
  obtain ⟨w, hrun, hremoved⟩ := hrun
  exact ⟨w, hrun, deliveredOnce_of_reaches sampleCrypto (fun n _ => Bool.not_not n) hrun, hremoved⟩

set_option maxRecDepth 4000 in
/-- The item is for a service that is not registered at the far end: it is acknowledged and removed. -/
theorem deliveredOnce_counterexample :
    ∃ w : Network Bool Nat, Reaches (step sampleCrypto sampleFar) (fun _ op => ByDelivery op)
        initial w ∧
      ¬ DeliveredOnce sampleFar w := by
  have hrun : ∃ w : Network Bool Nat, Reaches (step sampleCrypto sampleFar)
        (fun _ op => ByDelivery op) initial w ∧
      w.removed.length = 1 ∧ w.handed = [] :=
    ⟨_, .next (.deliver 2 sampleSending)
        (.next (.call true (.flush sampleSending))
          (.next (.deliver 1 sampleSending)
            (.next (.call false (.flush sampleSending))
              (.next (.call true (.receiveTurtleData (sampleSurroundings 2)
                  (samplePacket (sampleId 1) 5) (sampleId 9)))
                (.next (.call false (.receiveTurtleData (sampleSurroundings 1)
                    (samplePacket (sampleId 2) 2) (sampleId 9)))
                  (.next (.call true (.addVirtualPeer (sampleSurroundings 2) sampleHash
                      (sampleId 9) .client))
                    (.next (.call false (.addVirtualPeer (sampleSurroundings 1) sampleHash
                        (sampleId 9) .server))
                      (.next (.call false (.sendData (sampleId 1) 7 [1]))
                        (.next (.call false (.requestSecuredTunnel (sampleSurroundings 1)
                            (sampleId 2) (sampleId 1) 7))
                          (.next (.call false (.registerClientService 7)) (.refl _) trivial rfl)
                          trivial rfl) trivial rfl) trivial rfl) trivial rfl) rfl rfl) rfl rfl)
              trivial rfl) trivial rfl) trivial rfl) trivial rfl, rfl, rfl⟩
  obtain ⟨w, hrun, hremoved, hhanded⟩ := hrun
  refine ⟨w, hrun, fun honce => ?_⟩
  obtain ⟨r, hmem⟩ := List.exists_mem_of_length_pos (by rw [hremoved]; exact Nat.one_pos)
  have hcount := (honce r hmem).2
  rw [hhanded] at hcount
  simp at hcount

end Network

end RetroShare.GxsTunnel
