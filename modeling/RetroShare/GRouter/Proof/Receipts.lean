import RetroShare.GRouter.Proof.Entries

/-!
# Receipts

The origin of a message takes a receipt for the end of it when the hash is that of the message and the
signature is valid. Whose signature it is, is not compared with the key that the message was sent to, so
receipts are authentic in the runs in which everybody who signs one owns that key.
-/

namespace RetroShare.GRouter

namespace Router

open Transition

variable (c : Crypto)

/-- The receipt is for the message, and was signed with the key that the message was sent to. -/
structure Authentic (info : RoutingInfo) (receipt : SignedReceiptItem) : Prop where
  dataHash : receipt.dataHash = info.itemHash
  signer : receipt.signature.keyId = info.dataItem.destinationKey
  valid : c.validateSignature receipt.signedBytes receipt.signature = true

/-- A message of this node is done, and its client is told so, only for an authentic receipt. -/
structure ReceiptsAuthentic (s : Router) : Prop where
  accepted : ∀ entry ∈ s.acceptedReceipts, Authentic c entry.1 entry.2
  notified : ∀ id signer, .notifyDataStatus id signer .received ∈ s.events →
    ∃ entry ∈ s.acceptedReceipts, entry.2.routingId = id
  done : ∀ id info, s.Keeps id info → info.routingFlags.isOrigin = true → info.dataStatus = .done →
    ∃ entry ∈ s.acceptedReceipts, Authentic c info entry.2

/-- A receipt that the origin of a message would believe was signed with the key of the destination. -/
def SignedByDestination (s : Router) : Op → Prop
  | .handleIncomingReceiptItem env receipt => ∀ (info : RoutingInfo),
      s.pendingMessages[receipt.routingId]? = some info → info.routingFlags.isOrigin = true →
        receipt.dataHash = info.itemHash →
          verifySignedDataItem c env receipt.signedBytes receipt.signature = .ok () →
            receipt.signature.keyId = info.dataItem.destinationKey
  | _ => True

/-- The origin never keeps a receipt, so that only an arrival makes it done. -/
structure ReceiptsKept (s : Router) : Prop extends ReceiptsAuthentic c s where
  noReceipt : ∀ id info, s.Keeps id info → info.routingFlags.isOrigin = true →
    info.receiptItem = none

variable {c} {env : Surroundings} {s s' : Router}

theorem Authentic.of_kept {info info' : RoutingInfo} {receipt : SignedReceiptItem}
    (hkept : info.Kept info') (hauthentic : Authentic c info receipt) :
    Authentic c info' receipt where
  dataHash := hkept.itemHash ▸ hauthentic.dataHash
  signer := hkept.dataItem ▸ hauthentic.signer
  valid := hauthentic.valid

theorem receiptsKept_initial : ReceiptsKept c initial where
  accepted := by simp [initial]
  notified := by simp [initial]
  done := by simp [Keeps, initial]
  noReceipt := by simp [Keeps, initial]

theorem ReceiptsKept.quiet (hkept : ReceiptsKept c s) (hquiet : Quiet s s') : ReceiptsKept c s' where
  accepted := by
    rw [hquiet.acceptedReceipts]
    exact hkept.accepted
  notified := fun id signer hmem => by
    rw [hquiet.acceptedReceipts]
    rcases hquiet.events _ hmem with hold | hnew
    · exact hkept.notified id signer hold
    · cases hnew
  done := fun id info' hkeeps' horigin hdone => by
    obtain ⟨info, hkeeps, hsame⟩ := hquiet.entries id info' hkeeps'
    have horigin := hsame.isOrigin ▸ horigin
    have hdone : info.dataStatus = .done :=
      (hsame.done hdone).resolve_right (not_not.mpr (hkept.noReceipt id info hkeeps horigin))
    obtain ⟨entry, hmem, hauthentic⟩ := hkept.done id info hkeeps horigin hdone
    exact ⟨entry, hquiet.acceptedReceipts ▸ hmem, hauthentic.of_kept hsame⟩
  noReceipt := fun id info' hkeeps' horigin => by
    obtain ⟨info, hkeeps, hsame⟩ := hquiet.entries id info' hkeeps'
    rw [hsame.receiptItem]
    exact hkept.noReceipt id info hkeeps (hsame.isOrigin ▸ horigin)

/-- An entry that is not done and keeps no receipt may be added. -/
theorem ReceiptsKept.setPending (hkept : ReceiptsKept c s) {id : Nat} {info : RoutingInfo}
    (horigin : info.routingFlags.isOrigin = true →
      info.dataStatus ≠ .done ∧ info.receiptItem = none) :
    ReceiptsKept c (s.setPending id info) where
  accepted := hkept.accepted
  notified := hkept.notified
  done := fun id' info' hkeeps horigin' hdone => by
    rcases keeps_setPending hkeeps with ⟨rfl, rfl⟩ | hold
    · exact absurd hdone (horigin horigin').1
    · exact hkept.done id' info' hold horigin' hdone
  noReceipt := fun id' info' hkeeps horigin' => by
    rcases keeps_setPending hkeeps with ⟨rfl, rfl⟩ | hold
    · exact (horigin horigin').2
    · exact hkept.noReceipt id' info' hold horigin'

theorem ReceiptsKept.record (hkept : ReceiptsKept c s) {events : List Event}
    (hnew : ∀ id signer, .notifyDataStatus id signer .received ∈ events →
      ∃ entry ∈ s.acceptedReceipts, entry.2.routingId = id) : ReceiptsKept c (s.record events) where
  accepted := hkept.accepted
  notified := fun id signer hmem =>
    (List.mem_append.mp hmem).elim (hkept.notified id signer) (hnew id signer)
  done := hkept.done
  noReceipt := hkept.noReceipt

/-! ### Steps -/

theorem ReceiptsKept.sendData (hkept : ReceiptsKept c s) {peerId : PeerId} {destination : GxsId}
    {client : Nat} {data : List UInt8} {signingId : GxsId}
    (hsend : s.sendData c env peerId destination client data signingId = some s') :
    ReceiptsKept c s' := by
  unfold Router.sendData at hsend
  split at hsend
  · cases hsend
    exact hkept
  · split at hsend
    · cases hsend
    · split at hsend
      · cases hsend
        exact hkept
      · dsimp only at hsend
        split at hsend
        · cases hsend
          exact hkept
        · cases hsend
          exact hkept.setPending fun _ => ⟨DataStatus.noConfusion, rfl⟩

theorem ReceiptsKept.decryptAndNotify (hkept : ReceiptsKept c s) {item : GenericDataItem}
    {info : RoutingInfo} (horigin : info.routingFlags.isOrigin = false) :
    ReceiptsKept c (decryptAndNotify c env s item info) := by
  have hrecord : ReceiptsKept c (s.record [.decryptDataItem item]) := hkept.record (by simp)
  unfold Router.decryptAndNotify
  dsimp only
  split
  · exact
      { accepted := hrecord.accepted
        notified := hrecord.notified
        done := hrecord.done
        noReceipt := hrecord.noReceipt }
  · split
    · exact hrecord
    · split
      · apply ReceiptsKept.setPending (hrecord.record (by simp))
        simp [horigin]
      · exact hrecord

theorem ReceiptsKept.handleIncomingDataItem (hkept : ReceiptsKept c s) (item : GenericDataItem) :
    ReceiptsKept c (s.handleIncomingDataItem c env item) := by
  rcases handleIncomingDataItem_cases env c s item with
    hquiet | heq | ⟨receipt, info, -, -, -, -, hinfo, heq⟩
  · exact hkept.quiet hquiet
  · rw [heq]
    exact hkept.setPending fun horigin => by cases horigin
  · have horigin : info.routingFlags.isOrigin = false := by
      rw [hinfo]
      rfl
    rw [heq]
    apply ReceiptsKept.decryptAndNotify _ horigin
    apply hkept.setPending
    simp [horigin]

/-- The receipt that ends a message of this node is authentic when its signer owns the key. -/
theorem authentic_of_believed {info : RoutingInfo} {receipt : SignedReceiptItem}
    (hhash : receipt.dataHash = info.itemHash) (hbelieved : Believed c env receipt true)
    (hsigner : verifySignedDataItem c env receipt.signedBytes receipt.signature = .ok () →
      receipt.signature.keyId = info.dataItem.destinationKey) : Authentic c info receipt := by
  unfold Believed at hbelieved
  split at hbelieved
  · next hok => exact ⟨hhash, hsigner hok, validateSignature_of_ok hok⟩
  · cases hbelieved.1

theorem ReceiptsKept.handleIncomingReceiptItem (hkept : ReceiptsKept c s)
    {receipt : SignedReceiptItem}
    (hsigned : SignedByDestination c s (.handleIncomingReceiptItem env receipt)) :
    ReceiptsKept c (s.handleIncomingReceiptItem c env receipt) := by
  rcases handleIncomingReceiptItem_cases env c s receipt with
    heq | ⟨info, hlookup, hhash, hbelieved, ⟨horigin, events, heq, hevents⟩ | ⟨horigin, heq⟩⟩
  · rw [heq]
    exact hkept
  · rw [horigin] at hbelieved
    have hauthentic := authentic_of_believed hhash hbelieved (hsigned info hlookup horigin hhash)
    rw [heq]
    apply ReceiptsKept.record
    · exact
        { accepted := fun entry hmem => by
            rcases List.mem_append.mp hmem with hold | hnew
            · exact hkept.accepted entry hold
            · rw [List.mem_singleton.mp hnew]
              exact hauthentic
          notified := fun id signer hmem => by
            obtain ⟨entry, hold, hid⟩ := hkept.notified id signer hmem
            exact ⟨entry, List.mem_append_left _ hold, hid⟩
          done := fun id info' hkeeps horigin' hdone => by
            rcases keeps_setPending (s := s) hkeeps with ⟨-, rfl⟩ | hold
            · exact ⟨(info, receipt), List.mem_append_right _ (List.mem_singleton_self _),
                hauthentic.dataHash, hauthentic.signer, hauthentic.valid⟩
            · obtain ⟨entry, hmem, hentry⟩ := hkept.done id info' hold horigin' hdone
              exact ⟨entry, List.mem_append_left _ hmem, hentry⟩
          noReceipt := fun id info' hkeeps horigin' => by
            rcases keeps_setPending (s := s) hkeeps with ⟨-, rfl⟩ | hold
            · exact hkept.noReceipt _ info (.inl hlookup) horigin
            · exact hkept.noReceipt id info' hold horigin' }
    · intro id signer hmem
      obtain ⟨signer', hevent⟩ := hevents _ hmem
      cases hevent
      exact ⟨(info, receipt), List.mem_append_right _ (List.mem_singleton_self _), rfl⟩
  · rw [heq]
    apply hkept.setPending
    simp [horigin]

theorem ReceiptsKept.step {op : Op} (hkept : ReceiptsKept c s) (hsigned : SignedByDestination c s op)
    (hstep : s.step c op = some s') : ReceiptsKept c s' := by
  unfold Router.step at hstep
  split at hstep
  · cases hstep
  · by_cases hop : op.BringsItem
    · cases op with
      | sendData => exact hkept.sendData hstep
      | handleIncomingDataItem env item =>
          cases hstep
          exact hkept.handleIncomingDataItem item
      | handleIncomingReceiptItem env receipt =>
          cases hstep
          exact hkept.handleIncomingReceiptItem hsigned
      | _ => exact hop.elim
    · exact hkept.quiet (quiet_run hop hstep)

/-- In a run in which every receipt that an origin believes is signed with the key that the message was
sent to, messages are done only for authentic receipts. -/
theorem receiptsAuthentic_of_reaches
    (hrun : Reaches (step c) (fun s op => SignedByDestination c s op) initial s) :
    ReceiptsAuthentic c s := by
  have hkept : ReceiptsKept c s := hrun.invariant (ReceiptsKept c)
    (fun _ _ _ hbefore hsigned hstep => hbefore.step hsigned hstep) receiptsKept_initial
  exact hkept.toReceiptsAuthentic

/-! ### A message and its receipt -/

def sampleId (byte : UInt8) : { bytes : List UInt8 // bytes.length = 16 } :=
  ⟨List.replicate 16 byte, rfl⟩

def sampleCrypto : Crypto where
  sha1sum := fun bytes => ⟨(bytes ++ List.replicate 20 0).take 20, by simp⟩
  signatureTlv := fun signature => signature.keyId.1 ++ signature.signData
  validateSignature := fun bytes signature => signature.signData = signature.keyId.1 ++ bytes
  decrypt := fun key bytes => if bytes.take 16 = key.1 then some (bytes.drop 16) else none

def sampleSign (bytes : List UInt8) (id : GxsId) : KeySignature :=
  { keyId := id, signData := id.1 ++ bytes }

def sampleSurroundings : Surroundings where
  now := 0
  locallyNegative := fun _ => false
  keyAvailable := fun _ => true
  privateKeyAvailable := fun _ => true
  signData := fun bytes id => some (sampleSign bytes id)
  encryptData := fun data id => some (id.1 ++ data)
  acceptDataFromPeer := fun _ _ => true
  isTurtlePeer := fun _ => true
  isPeerConnected := fun _ => false
  availableTunnels := fun _ _ => []
  availableFriends := fun _ _ _ => []
  randomId := 5
  staleError := .noError
  uninitialisedServiceId := 0

/-- What identity 1 sends to identity 2 through a node of its own. -/
def sampleItem : GenericDataItem :=
  let item : GenericDataItem :=
    { peerId := sampleId 8
      routingId := 5
      destinationKey := sampleId 2
      serviceId := 7
      signature := { keyId := sampleId 1, signData := [] }
      flags := flagEncrypted
      dataBytes := (sampleId 2).1 ++ [42]
      duplicationFactor := maxDuplicationFactor }
  { item with signature := sampleSign item.signedBytes (sampleId 1) }

def sampleReceipt (signer : GxsId) : SignedReceiptItem :=
  let receipt : SignedReceiptItem :=
    { peerId := sampleId 9
      routingId := 5
      destinationKey := sampleId 1
      serviceId := 0
      signature := { keyId := signer, signData := [] }
      flags := 0
      dataHash := computeDataItemHash sampleCrypto sampleItem }
  { receipt with signature := sampleSign receipt.signedBytes signer }

def sampleSend : Op :=
  .sendData sampleSurroundings (sampleId 8) (sampleId 2) 7 [42] (sampleId 1)

theorem receiptsAuthentic_sample :
    ∃ s, Reaches (step sampleCrypto) (fun s op => SignedByDestination sampleCrypto s op) initial s ∧
      ReceiptsAuthentic sampleCrypto s ∧ s.acceptedReceipts.length = 1 := by
  have hrun : ∃ s, Reaches (step sampleCrypto)
        (fun s op => SignedByDestination sampleCrypto s op) initial s ∧
      s.acceptedReceipts.length = 1 := by
    refine ⟨_, .next (.handleIncomingReceiptItem sampleSurroundings (sampleReceipt (sampleId 2)))
      (.next sampleSend
        (.next (.registerClientService 7) (.refl _) trivial rfl) trivial rfl) ?_ rfl, rfl⟩
    intro info hlookup _ _ _
    cases hlookup
    rfl
  obtain ⟨s, hrun, haccepted⟩ := hrun
  exact ⟨s, hrun, receiptsAuthentic_of_reaches hrun, haccepted⟩

/-- Identity 3 signs the receipt of a message to identity 2. -/
theorem receiptsAuthentic_counterexample :
    ∃ s, Reaches (step sampleCrypto) (fun _ _ => True) initial s ∧
      ¬ ReceiptsAuthentic sampleCrypto s := by
  have hrun : ∃ s, Reaches (step sampleCrypto) (fun _ _ => True) initial s ∧
      ∃ info, s.acceptedReceipts = [(info, sampleReceipt (sampleId 3))] ∧
        info.dataItem.destinationKey = sampleId 2 :=
    ⟨_, .next (.handleIncomingReceiptItem sampleSurroundings (sampleReceipt (sampleId 3)))
      (.next sampleSend
        (.next (.registerClientService 7) (.refl _) trivial rfl) trivial rfl) trivial rfl,
      _, rfl, rfl⟩
  obtain ⟨s, hrun, info, haccepted, hdestination⟩ := hrun
  refine ⟨s, hrun, fun hauthentic => ?_⟩
  have hsigner := (hauthentic.accepted (info, sampleReceipt (sampleId 3)) (by simp [haccepted])).signer
  have hsame : sampleId 3 = sampleId 2 := hsigner.trans hdestination
  exact absurd hsame (by decide)

end Router

end RetroShare.GRouter
