import RetroShare.GRouter.Proof.Receipts

/-!
# Delivery

The destination of a message stores the signed receipt before it opens the data and asks the client. So
what is acknowledged was handed over in the runs in which every message that gets as far as that opens
and is accepted; that it is handed over at most once is because it has an entry from then on.
-/

namespace RetroShare.GRouter

namespace Router

open Transition

variable (c : Crypto)

/-- The payload came in an item with a valid signature and the hash of the entry, and was decrypted for
the destination key. -/
structure Opened (info : RoutingInfo) (handOver : HandOver) : Prop where
  itemHash : computeDataItemHash c handOver.item = info.itemHash
  valid : c.validateSignature handOver.item.signedBytes handOver.item.signature = true
  decrypted : c.decrypt handOver.item.destinationKey handOver.item.dataBytes = some handOver.data

/-- A payload is handed over at most once and when it was opened, the destination has a receipt only of
what it handed over, and only encrypted items are decrypted. -/
structure AcknowledgedOnDelivery (s : Router) : Prop where
  once : ∀ id info, s.Keeps id info → info.handOvers.length ≤ 1
  opened : ∀ id info, s.Keeps id info → ∀ handOver ∈ info.handOvers, Opened c info handOver
  stored : ∀ id info, s.Keeps id info → info.routingFlags.isDestination = true →
    info.receiptItem ≠ none → info.handOvers ≠ []
  sent : ∀ peer receipt handOvers, .sendReceipt peer receipt true handOvers ∈ s.events →
    handOvers ≠ []
  encrypted : ∀ item, .decryptDataItem item ∈ s.events → item.flags &&& flagEncrypted ≠ 0

/-- A new message for this node that has its receipt is encrypted, opens and is accepted. -/
def Deliverable (s : Router) : Op → Prop
  | .handleIncomingDataItem env item =>
      item.serviceId ∈ s.registeredServices → s.pendingMessages[item.routingId]? = none →
        makeTunnelHash c item.destinationKey item.serviceId ∈ s.ownedKeyIds →
          createReceipt c env item (computeDataItemHash c item) ≠ none →
            item.flags &&& flagEncrypted ≠ 0 ∧ decryptData c env item ≠ none ∧
              env.acceptDataFromPeer item.serviceId item.signature.keyId = true
  | _ => True

/-- An entry of the destination was handed over before anybody sees it. -/
structure DeliveryKept (s : Router) : Prop extends AcknowledgedOnDelivery c s where
  handed : ∀ id info, s.Keeps id info → info.routingFlags.isDestination = true → info.handOvers ≠ []

variable {c} {env : Surroundings} {s s' : Router}

theorem deliveryKept_initial : DeliveryKept c initial where
  once := by simp [Keeps, initial]
  opened := by simp [Keeps, initial]
  stored := by simp [Keeps, initial]
  sent := by simp [initial]
  encrypted := by simp [initial]
  handed := by simp [Keeps, initial]

theorem Opened.congr {info info' : RoutingInfo} {handOver : HandOver} (hopened : Opened c info handOver)
    (hsame : info'.itemHash = info.itemHash) : Opened c info' handOver :=
  ⟨hopened.itemHash.trans hsame.symm, hopened.valid, hopened.decrypted⟩

theorem DeliveryKept.quiet (hkept : DeliveryKept c s) (hquiet : Quiet s s') : DeliveryKept c s' where
  once := fun id info' hkeeps' => by
    obtain ⟨info, hkeeps, hsame⟩ := hquiet.entries id info' hkeeps'
    rw [hsame.handOvers]
    exact hkept.once id info hkeeps
  opened := fun id info' hkeeps' handOver hmem => by
    obtain ⟨info, hkeeps, hsame⟩ := hquiet.entries id info' hkeeps'
    exact (hkept.opened id info hkeeps handOver (hsame.handOvers ▸ hmem)).congr hsame.itemHash
  stored := fun id info' hkeeps' hdestination _ => by
    obtain ⟨info, hkeeps, hsame⟩ := hquiet.entries id info' hkeeps'
    rw [hsame.handOvers]
    exact hkept.handed id info hkeeps (hsame.isDestination ▸ hdestination)
  sent := fun peer receipt handOvers hmem => by
    rcases hquiet.events _ hmem with hold | ⟨id, info, hkeeps, -, hdestination, rfl⟩
    · exact hkept.sent peer receipt handOvers hold
    · exact hkept.handed id info hkeeps hdestination
  encrypted := fun item hmem => by
    rcases hquiet.events _ hmem with hold | hnew
    · exact hkept.encrypted item hold
    · exact hnew.elim
  handed := fun id info' hkeeps' hdestination => by
    obtain ⟨info, hkeeps, hsame⟩ := hquiet.entries id info' hkeeps'
    rw [hsame.handOvers]
    exact hkept.handed id info hkeeps (hsame.isDestination ▸ hdestination)

/-- An entry may be added whose payload, if it was handed over, was so once. -/
theorem DeliveryKept.setPending (hkept : DeliveryKept c s) {id : Nat} {info : RoutingInfo}
    (honce : info.handOvers.length ≤ 1) (hopened : ∀ handOver ∈ info.handOvers, Opened c info handOver)
    (hhanded : info.routingFlags.isDestination = true → info.handOvers ≠ []) :
    DeliveryKept c (s.setPending id info) where
  once := fun id' info' hkeeps => by
    rcases keeps_setPending hkeeps with ⟨-, rfl⟩ | hold
    · exact honce
    · exact hkept.once id' info' hold
  opened := fun id' info' hkeeps => by
    rcases keeps_setPending hkeeps with ⟨-, rfl⟩ | hold
    · exact hopened
    · exact hkept.opened id' info' hold
  stored := fun id' info' hkeeps hdestination hreceipt => by
    rcases keeps_setPending hkeeps with ⟨-, rfl⟩ | hold
    · exact hhanded hdestination
    · exact hkept.stored id' info' hold hdestination hreceipt
  sent := hkept.sent
  encrypted := hkept.encrypted
  handed := fun id' info' hkeeps hdestination => by
    rcases keeps_setPending hkeeps with ⟨-, rfl⟩ | hold
    · exact hhanded hdestination
    · exact hkept.handed id' info' hold hdestination

/-- An entry without a hand-over may be added where this node is not the destination. -/
theorem DeliveryKept.setRelay (hkept : DeliveryKept c s) {id : Nat} {info : RoutingInfo}
    (hnone : info.handOvers = []) (hrelay : info.routingFlags.isDestination = false) :
    DeliveryKept c (s.setPending id info) :=
  hkept.setPending (by simp [hnone]) (by simp [hnone]) (by simp [hrelay])

theorem DeliveryKept.record (hkept : DeliveryKept c s) {events : List Event}
    (hsent : ∀ peer receipt handOvers, .sendReceipt peer receipt true handOvers ∉ events)
    (hencrypted : ∀ item, .decryptDataItem item ∈ events → item.flags &&& flagEncrypted ≠ 0) :
    DeliveryKept c (s.record events) where
  once := hkept.once
  opened := hkept.opened
  stored := hkept.stored
  sent := fun peer receipt handOvers hmem => (List.mem_append.mp hmem).elim
    (hkept.sent peer receipt handOvers) fun hnew => absurd hnew (hsent peer receipt handOvers)
  encrypted := fun item hmem =>
    (List.mem_append.mp hmem).elim (hkept.encrypted item) (hencrypted item)
  handed := hkept.handed

/-! ### Steps -/

theorem DeliveryKept.sendData (hkept : DeliveryKept c s) {peerId : PeerId} {destination : GxsId}
    {client : Nat} {data : List UInt8} {signingId : GxsId}
    (hsend : s.sendData c env peerId destination client data signingId = some s') :
    DeliveryKept c s' := by
  unfold Router.sendData at hsend
  split at hsend
  · cases hsend
    exact hkept
  · split at hsend
    · cases hsend
    · split at hsend
      · cases hsend
        exact hkept
      · dsimp only at hsend
        split at hsend
        · cases hsend
          exact hkept
        · cases hsend
          exact hkept.setRelay rfl rfl

theorem setPending_setPending (s : Router) (id : Nat) (info info' : RoutingInfo) :
    (s.setPending id info).setPending id info' = s.setPending id info' := by
  unfold setPending
  congr 1
  apply Std.ExtTreeMap.ext_getElem?
  intro id'
  simp only [OrderedMap.lookup_insert]
  split <;> rfl

/-- What opens and is accepted is handed over. -/
theorem decryptAndNotify_setPending (s : Router) {item : GenericDataItem} {info : RoutingInfo}
    {data : List UInt8} (hflag : item.flags &&& flagEncrypted ≠ 0)
    (hdata : decryptData c env item = some data)
    (haccept : env.acceptDataFromPeer item.serviceId item.signature.keyId = true) :
    decryptAndNotify c env (s.setPending item.routingId info) item info =
      (s.record [.decryptDataItem item, .receiveGRouterData item.destinationKey
        item.signature.keyId item.serviceId data]).setPending item.routingId
          { info with handOvers := info.handOvers ++ [⟨item, data⟩] } := by
  have hrecord (first second : Event) :
      ((s.setPending item.routingId info).record [first]).record [second] =
        (s.record [first, second]).setPending item.routingId info := by
    simp [Router.record, Router.setPending]
  unfold decryptAndNotify
  dsimp only
  rw [if_neg hflag, hdata]
  dsimp only
  rw [if_pos haccept, hrecord, setPending_setPending]

theorem validateSignature_of_createReceipt {item : GenericDataItem} {itemHash : Sha1CheckSum}
    (hreceipt : createReceipt c env item itemHash ≠ none) :
    c.validateSignature item.signedBytes item.signature = true := by
  unfold createReceipt at hreceipt
  split at hreceipt
  · exact absurd rfl hreceipt
  · next hok => exact validateSignature_of_ok hok

theorem DeliveryKept.handleIncomingDataItem (hkept : DeliveryKept c s) {item : GenericDataItem}
    (hdeliverable : Deliverable c s (.handleIncomingDataItem env item)) :
    DeliveryKept c (s.handleIncomingDataItem c env item) := by
  rcases handleIncomingDataItem_cases env c s item with
    hquiet | heq | ⟨receipt, info, hservice, hnew, howned, hreceipt, hinfo, heq⟩
  · exact hkept.quiet hquiet
  · rw [heq]
    exact hkept.setRelay rfl rfl
  · have hreceipt : createReceipt c env item (computeDataItemHash c item) ≠ none := by
      rw [hreceipt]
      exact Option.some_ne_none receipt
    obtain ⟨hflag, hdata, haccept⟩ := hdeliverable hservice hnew howned hreceipt
    obtain ⟨data, hdata⟩ := Option.ne_none_iff_exists'.mp hdata
    have hnone : info.handOvers = [] := by
      rw [hinfo]
      rfl
    have hhash : info.itemHash = computeDataItemHash c item := by
      rw [hinfo]
      rfl
    have hdecrypt : c.decrypt item.destinationKey item.dataBytes = some data := by
      unfold decryptData at hdata
      split at hdata
      · exact hdata
      · cases hdata
    rw [heq, decryptAndNotify_setPending s hflag hdata haccept, hnone, List.nil_append]
    apply DeliveryKept.setPending
    · apply hkept.record
      · simp
      · simp [hflag]
    · exact Nat.le_refl 1
    · intro handOver hmem
      rw [List.mem_singleton.mp hmem]
      exact ⟨hhash.symm, validateSignature_of_createReceipt hreceipt, hdecrypt⟩
    · exact fun _ => List.cons_ne_nil _ _

theorem DeliveryKept.handleIncomingReceiptItem (hkept : DeliveryKept c s)
    (receipt : SignedReceiptItem) : DeliveryKept c (s.handleIncomingReceiptItem c env receipt) := by
  rcases handleIncomingReceiptItem_cases env c s receipt with
    heq | ⟨info, hlookup, -, -, ⟨-, events, heq, hevents⟩ | ⟨-, heq⟩⟩
  · rw [heq]
    exact hkept
  · have hset : DeliveryKept c (s.setPending receipt.routingId { info with dataStatus := .done }) :=
      hkept.setPending (hkept.once _ info (.inl hlookup))
        (fun handOver hmem => (hkept.opened _ info (.inl hlookup) handOver hmem).congr rfl)
        (hkept.handed _ info (.inl hlookup))
    have haccepted : DeliveryKept c
        { s.setPending receipt.routingId { info with dataStatus := .done } with
          acceptedReceipts := s.acceptedReceipts ++ [(info, receipt)] } :=
      { hset with }
    rw [heq]
    apply haccepted.record
    · intro peer receipt' handOvers hmem
      obtain ⟨signer, hevent⟩ := hevents _ hmem
      cases hevent
    · intro item hmem
      obtain ⟨signer, hevent⟩ := hevents _ hmem
      cases hevent
  · rw [heq]
    exact hkept.setPending (hkept.once _ info (.inl hlookup))
      (fun handOver hmem => (hkept.opened _ info (.inl hlookup) handOver hmem).congr rfl)
      (hkept.handed _ info (.inl hlookup))

theorem DeliveryKept.step {op : Op} (hkept : DeliveryKept c s) (hdeliverable : Deliverable c s op)
    (hstep : s.step c op = some s') : DeliveryKept c s' := by
  unfold Router.step at hstep
  split at hstep
  · cases hstep
  · by_cases hop : op.BringsItem
    · cases op with
      | sendData => exact hkept.sendData hstep
      | handleIncomingDataItem env item =>
          cases hstep
          exact hkept.handleIncomingDataItem hdeliverable
      | handleIncomingReceiptItem env receipt =>
          cases hstep
          exact hkept.handleIncomingReceiptItem receipt
      | _ => exact hop.elim
    · exact hkept.quiet (quiet_run hop hstep)

/-- In a run in which every new message for this node that has its receipt is encrypted, opens and is
accepted, messages are handed over at most once and acknowledged only then. -/
theorem acknowledgedOnDelivery_of_reaches
    (hrun : Reaches (step c) (fun s op => Deliverable c s op) initial s) : AcknowledgedOnDelivery c s := by
  have hkept : DeliveryKept c s := hrun.invariant (DeliveryKept c)
    (fun _ _ _ hbefore hdeliverable hstep => hbefore.step hdeliverable hstep) deliveryKept_initial
  exact hkept.toAcknowledgedOnDelivery

/-! ### A message for this node -/

def sampleArrival (item : GenericDataItem) : Op := .handleIncomingDataItem sampleSurroundings item

theorem acknowledgedOnDelivery_sample :
    ∃ s, Reaches (step sampleCrypto) (fun s op => Deliverable sampleCrypto s op) initial s ∧
      AcknowledgedOnDelivery sampleCrypto s ∧
      (∃ info, s.pendingMessages[5]? = some info ∧ info.handOvers = [⟨sampleItem, [42]⟩] ∧
        info.dataStatus = .done) := by
  have hrun : ∃ s, Reaches (step sampleCrypto) (fun s op => Deliverable sampleCrypto s op) initial s ∧
      (∃ info, s.pendingMessages[5]? = some info ∧ info.handOvers = [⟨sampleItem, [42]⟩] ∧
        info.dataStatus = .done) :=
    ⟨_, .next (.routePendingObjects sampleSurroundings)
      (.next (sampleArrival sampleItem)
        (.next (sampleArrival sampleItem)
          (.next (.registerKey (sampleId 2) 7)
            (.next (.registerClientService 7) (.refl _) trivial rfl) trivial rfl)
          (fun _ _ _ _ => ⟨by decide, by decide, rfl⟩) rfl)
        (fun _ hnew => absurd hnew (Option.some_ne_none _)) rfl) trivial rfl,
      _, rfl, rfl, rfl⟩
  obtain ⟨s, hrun, hdone⟩ := hrun
  exact ⟨s, hrun, acknowledgedOnDelivery_of_reaches hrun, hdone⟩

/-- A message in clear, which ends the program after its receipt is stored. -/
theorem acknowledgedOnDelivery_counterexample :
    ∃ s, Reaches (step sampleCrypto) (fun _ _ => True) initial s ∧
      ¬ AcknowledgedOnDelivery sampleCrypto s := by
  have hrun : ∃ s, Reaches (step sampleCrypto) (fun _ _ => True) initial s ∧
      s.events = [.decryptDataItem { sampleItem with flags := 0 }] :=
    ⟨_, .next (sampleArrival { sampleItem with flags := 0 })
      (.next (.registerKey (sampleId 2) 7)
        (.next (.registerClientService 7) (.refl _) trivial rfl) trivial rfl) trivial rfl, rfl⟩
  obtain ⟨s, hrun, hevents⟩ := hrun
  refine ⟨s, hrun, fun honce => ?_⟩
  exact honce.encrypted { sampleItem with flags := 0 } (by simp [hevents]) rfl

end Router

end RetroShare.GRouter
