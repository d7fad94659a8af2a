import RetroShare.Foundation.Transition
import RetroShare.GRouter.Router

/-!
# What becomes of an entry

Once a message has an entry, most of it never changes: only the arrival of a data item or a receipt
does more than move the entry along. `Quiet` says what all other steps may do, and it is all that the
proofs use of them.
-/

namespace RetroShare.GRouter

/-- The entry moved along. It is done without a receipt only if it was before. -/
structure RoutingInfo.Kept (info info' : RoutingInfo) : Prop where
  dataItem : info'.dataItem = info.dataItem
  itemHash : info'.itemHash = info.itemHash
  isOrigin : info'.routingFlags.isOrigin = info.routingFlags.isOrigin
  isDestination : info'.routingFlags.isDestination = info.routingFlags.isDestination
  receiptItem : info'.receiptItem = info.receiptItem
  handOvers : info'.handOvers = info.handOvers
  done : info'.dataStatus = .done → info.dataStatus = .done ∨ info.receiptItem ≠ none

theorem RoutingInfo.Kept.refl (info : RoutingInfo) : info.Kept info :=
  ⟨rfl, rfl, rfl, rfl, rfl, rfl, .inl⟩

theorem RoutingInfo.Kept.trans {info info' info'' : RoutingInfo} (hfirst : info.Kept info')
    (hsecond : info'.Kept info'') : info.Kept info'' where
  dataItem := hsecond.dataItem.trans hfirst.dataItem
  itemHash := hsecond.itemHash.trans hfirst.itemHash
  isOrigin := hsecond.isOrigin.trans hfirst.isOrigin
  isDestination := hsecond.isDestination.trans hfirst.isDestination
  receiptItem := hsecond.receiptItem.trans hfirst.receiptItem
  handOvers := hsecond.handOvers.trans hfirst.handOvers
  done := fun hdone => (hsecond.done hdone).elim hfirst.done
    fun hreceipt => .inr (hfirst.receiptItem ▸ hreceipt)

namespace Router

/-- The node keeps the entry, in memory or in its configuration file. -/
def Keeps (s : Router) (id : Nat) (info : RoutingInfo) : Prop :=
  s.pendingMessages[id]? = some info ∨ s.saved[id]? = some info

/-- Events that neither hand over a payload nor say that a message was received. -/
def QuietEvent (s : Router) : Event → Prop
  | .decryptDataItem _ => False
  | .receiveGRouterData _ _ _ _ => False
  | .notifyDataStatus _ _ status => status = .failed
  | .sendToPeer _ _ => True
  | .sendReceipt _ receipt isDestination handOvers =>
      ∃ id info, s.Keeps id info ∧ info.receiptItem = some receipt ∧
        info.routingFlags.isDestination = isDestination ∧ info.handOvers = handOvers

structure Quiet (s s' : Router) : Prop where
  entries : ∀ id info', s'.Keeps id info' → ∃ info, s.Keeps id info ∧ info.Kept info'
  acceptedReceipts : s'.acceptedReceipts = s.acceptedReceipts
  events : ∀ event ∈ s'.events, event ∈ s.events ∨ s.QuietEvent event

variable {s s' : Router}

theorem Quiet.refl (s : Router) : Quiet s s :=
  ⟨fun _ info hkeeps => ⟨info, hkeeps, .refl info⟩, rfl, fun _ => .inl⟩

/-- What else changes does not matter. -/
theorem Quiet.congr {s'' : Router} (hquiet : Quiet s s')
    (hpending : s''.pendingMessages = s'.pendingMessages) (hsaved : s''.saved = s'.saved)
    (haccepted : s''.acceptedReceipts = s'.acceptedReceipts) (hevents : s''.events = s'.events) :
    Quiet s s'' where
  entries := by
    unfold Keeps
    rw [hpending, hsaved]
    exact hquiet.entries
  acceptedReceipts := haccepted.trans hquiet.acceptedReceipts
  events := by
    rw [hevents]
    exact hquiet.events

theorem record_nil (s : Router) : s.record [] = s := by
  rw [Router.record, List.append_nil]

theorem keeps_setPending {id id' : Nat} {info info' : RoutingInfo}
    (hkeeps : (s.setPending id info).Keeps id' info') :
    id' = id ∧ info' = info ∨ s.Keeps id' info' := by
  rcases hkeeps with hpending | hsaved
  · simp only [setPending, OrderedMap.lookup_insert] at hpending
    split at hpending
    · next hsame =>
        cases hpending
        exact .inl ⟨hsame.symm, rfl⟩
    · exact .inr (.inl hpending)
  · exact .inr (.inr hsaved)

theorem Quiet.setPending (hquiet : Quiet s s') {id : Nat} {info info' : RoutingInfo}
    (hkeeps : s.Keeps id info) (hkept : info.Kept info') : Quiet s (s'.setPending id info') where
  entries := fun id' info'' hkeeps'' => by
    rcases keeps_setPending hkeeps'' with ⟨rfl, rfl⟩ | hold
    · exact ⟨info, hkeeps, hkept⟩
    · exact hquiet.entries id' info'' hold
  acceptedReceipts := hquiet.acceptedReceipts
  events := hquiet.events

theorem Quiet.record (hquiet : Quiet s s') {events : List Event}
    (hnew : ∀ event ∈ events, s.QuietEvent event) : Quiet s (s'.record events) where
  entries := hquiet.entries
  acceptedReceipts := hquiet.acceptedReceipts
  events := fun event hmem =>
    (List.mem_append.mp hmem).elim (hquiet.events event) fun hmem => .inr (hnew event hmem)

/-- Fewer entries are kept. -/
theorem Quiet.restrict (hquiet : Quiet s s') {pending : OrderedMap Nat RoutingInfo}
    (hfewer : ∀ (id : Nat) (info : RoutingInfo), pending[id]? = some info →
      s'.pendingMessages[id]? = some info) :
    Quiet s { s' with pendingMessages := pending } where
  entries := fun id info hkeeps =>
    hquiet.entries id info (hkeeps.imp_left (hfewer id info))
  acceptedReceipts := hquiet.acceptedReceipts
  events := hquiet.events

/-! ### The tick -/

variable (env : Surroundings)

/-- What an entry sends by itself. -/
def OwnEvent (info : RoutingInfo) : Event → Prop
  | .sendToPeer _ _ => True
  | .sendReceipt _ receipt isDestination handOvers => info.receiptItem = some receipt ∧
      info.routingFlags.isDestination = isDestination ∧ info.handOvers = handOvers
  | _ => False

theorem ownEvent_sendEvents (info : RoutingInfo) (item : GenericDataItem)
    (peers : List (PeerId × Nat)) : ∀ event ∈ sendEvents item peers, OwnEvent info event := by
  intro event hmem
  obtain ⟨peer, -, rfl⟩ := List.mem_map.mp hmem
  trivial

theorem OwnEvent.of_kept {info info' : RoutingInfo} (hkept : info.Kept info') {event : Event}
    (hown : OwnEvent info' event) : OwnEvent info event := by
  unfold OwnEvent at hown ⊢
  split at hown
  · trivial
  · exact ⟨hkept.receiptItem ▸ hown.1, hkept.isDestination ▸ hown.2.1, hkept.handOvers ▸ hown.2.2⟩
  · exact hown

/-- A pass over an entry moves it along and sends only what is in it. -/
def Routed (info : RoutingInfo) (result : RoutingInfo × List Event) : Prop :=
  info.Kept result.1 ∧ ∀ event ∈ result.2, OwnEvent info event

theorem routed_routeReceipt {info info' : RoutingInfo} (hkept : info.Kept info') :
    Routed info (routeReceipt env info') := by
  unfold routeReceipt
  split
  · exact ⟨hkept, by simp⟩
  · next receipt hreceipt =>
      split
      · exact ⟨hkept, by simp⟩
      · refine ⟨hkept.trans ?_, fun event hmem => OwnEvent.of_kept hkept ?_⟩
        · exact
            { dataItem := rfl
              itemHash := rfl
              isOrigin := rfl
              isDestination := rfl
              receiptItem := rfl
              handOvers := rfl
              done := fun _ => .inr (by simp [hreceipt]) }
        · obtain ⟨peer, -, rfl⟩ := List.mem_map.mp hmem
          exact ⟨hreceipt, rfl, rfl⟩

theorem routed_routePending (info : RoutingInfo) : Routed info (routePending env info) := by
  unfold routePending
  split
  · exact ⟨⟨rfl, rfl, rfl, rfl, rfl, rfl, fun h => by cases h⟩, ownEvent_sendEvents info _ _⟩
  · split
    · exact ⟨⟨rfl, rfl, rfl, rfl, rfl, rfl, .inl⟩, by simp⟩
    · exact ⟨.refl info, by simp⟩

theorem routed_routeEntry (info : RoutingInfo) : Routed info (routeEntry env info) := by
  unfold routeEntry
  split
  · split
    · exact ⟨⟨rfl, rfl, rfl, rfl, rfl, rfl, fun h => by cases h⟩, ownEvent_sendEvents info _ _⟩
    · have hpending := routed_routePending env info
      have hreceipt := routed_routeReceipt env hpending.1
      refine ⟨hreceipt.1, fun event hmem => ?_⟩
      exact (List.mem_append.mp hmem).elim (hpending.2 event) (hreceipt.2 event)
  · split
    · exact routed_routeReceipt env ⟨rfl, rfl, rfl, rfl, rfl, rfl, fun h => by cases h⟩
    · exact routed_routeReceipt env (.refl info)
  · split
    · exact routed_routeReceipt env ⟨rfl, rfl, rfl, rfl, rfl, rfl, fun h => by cases h⟩
    · exact routed_routeReceipt env ⟨rfl, rfl, rfl, rfl, rfl, rfl, .inl⟩
  · exact routed_routeReceipt env (.refl info)

theorem QuietEvent.of_own {id : Nat} {info : RoutingInfo} {event : Event}
    (hkeeps : s.Keeps id info) (hown : OwnEvent info event) : s.QuietEvent event := by
  unfold OwnEvent at hown
  split at hown
  · trivial
  · exact ⟨id, info, hkeeps, hown⟩
  · exact hown.elim

theorem quiet_routePendingObjects (s : Router) : Quiet s (s.routePendingObjects env) := by
  unfold routePendingObjects
  apply List.foldlRecOn (motive := fun s' : Router => Quiet s s')
  · exact .refl s
  · rintro s' hquiet ⟨id, info⟩ hmem
    have hkeeps : s.Keeps id info := .inl ((OrderedMap.mem_toList s.pendingMessages).mp hmem)
    have hrouted := routed_routeEntry env info
    unfold routePass
    exact (hquiet.setPending hkeeps hrouted.1).record fun event hevent =>
      .of_own hkeeps (hrouted.2 event hevent)

theorem quiet_autoWash (s : Router) : Quiet s (s.autoWash env) := by
  unfold autoWash
  refine ((Quiet.refl s).restrict fun id info hlookup => ?_).record fun event hmem => ?_
  · rw [OrderedMap.lookup_filter] at hlookup
    exact (Option.filter_eq_some_iff.mp hlookup).1
  · obtain ⟨entry, -, hfailed⟩ := List.mem_filterMap.mp hmem
    dsimp only at hfailed
    split at hfailed
    · cases hfailed
      rfl
    · cases hfailed

theorem quiet_cancel (s : Router) (id : Nat) : Quiet s (s.cancel id) := by
  refine (Quiet.refl s).restrict fun id' info hlookup => ?_
  rw [OrderedMap.lookup_erase] at hlookup
  split at hlookup
  · cases hlookup
  · exact hlookup

theorem quiet_handleLowLevelTransactionAckItem (s : Router) (id : Nat) :
    Quiet s (s.handleLowLevelTransactionAckItem env id) := by
  unfold handleLowLevelTransactionAckItem
  split
  · exact .refl s
  · next info hlookup =>
      split
      · exact (Quiet.refl s).setPending (.inl hlookup)
          ⟨rfl, rfl, rfl, rfl, rfl, rfl, fun hdone => by cases hdone⟩
      · exact .refl s

theorem quiet_saveList (s : Router) : Quiet s s.saveList where
  entries := fun _ info hkeeps => ⟨info, .inl (hkeeps.elim (fun h => h) fun h => h), .refl info⟩
  acceptedReceipts := rfl
  events := fun _ => .inl

theorem quiet_loadList (s : Router) : Quiet s s.loadList where
  entries := fun id info' hkeeps => by
    rcases hkeeps with hloaded | hsaved
    · simp only [loadList, Std.ExtTreeMap.getElem?_map] at hloaded
      obtain ⟨info, hsaved, rfl⟩ := Option.map_eq_some_iff.mp hloaded
      exact ⟨info, .inr hsaved, rfl, rfl, rfl, rfl, rfl, rfl, .inl⟩
    · exact ⟨info', .inr hsaved, .refl info'⟩
  acceptedReceipts := rfl
  events := fun _ => .inl

/-! ### Steps -/

/-- The steps that do more than move entries along. -/
def Op.BringsItem : Op → Prop
  | .sendData _ _ _ _ _ _ => True
  | .handleIncomingDataItem _ _ => True
  | .handleIncomingReceiptItem _ _ => True
  | _ => False

variable {c : Crypto}

theorem quiet_run {op : Op} (hop : ¬ op.BringsItem) (hrun : s.run c op = some s') : Quiet s s' := by
  cases op with
  | registerClientService id =>
      cases hrun
      exact (Quiet.refl s).congr rfl rfl rfl rfl
  | registerKey key client =>
      cases hrun
      unfold Router.registerKey
      split
      · exact .refl s
      · exact (Quiet.refl s).congr rfl rfl rfl rfl
  | unregisterKey key client =>
      cases hrun
      exact (Quiet.refl s).congr rfl rfl rfl rfl
  | sendData => exact absurd trivial hop
  | cancel id =>
      cases hrun
      exact quiet_cancel s id
  | handleIncomingDataItem => exact absurd trivial hop
  | handleIncomingReceiptItem => exact absurd trivial hop
  | handleLowLevelTransactionAckItem env id =>
      cases hrun
      exact quiet_handleLowLevelTransactionAckItem env s id
  | routePendingObjects env =>
      cases hrun
      exact quiet_routePendingObjects env s
  | autoWash env =>
      cases hrun
      exact quiet_autoWash env s
  | saveList =>
      cases hrun
      exact quiet_saveList s
  | loadList =>
      cases hrun
      exact quiet_loadList s

/-! ### Items that come in -/

omit env in
theorem validateSignature_of_ok {env : Surroundings} {bytes : List UInt8} {signature : KeySignature}
    (hok : verifySignedDataItem c env bytes signature = .ok ()) :
    c.validateSignature bytes signature = true := by
  unfold verifySignedDataItem at hok
  split at hok
  · cases hok
  · split at hok
    · cases hok
    · split at hok
      · assumption
      · cases hok

/-- A data item that has no entry gets one; else it leaves a route at most. -/
theorem handleIncomingDataItem_cases (c : Crypto) (s : Router) (item : GenericDataItem) :
    Quiet s (s.handleIncomingDataItem c env item) ∨
      s.handleIncomingDataItem c env item =
        s.setPending item.routingId (newInfo c env item (computeDataItemHash c item)) ∨
      ∃ receipt info, item.serviceId ∈ s.registeredServices ∧
        s.pendingMessages[item.routingId]? = none ∧
        makeTunnelHash c item.destinationKey item.serviceId ∈ s.ownedKeyIds ∧
        createReceipt c env item (computeDataItemHash c item) = some receipt ∧
        info = newInfoAtDestination c env item (computeDataItemHash c item) receipt ∧
        s.handleIncomingDataItem c env item =
          decryptAndNotify c env (s.setPending item.routingId info) item info := by
  unfold handleIncomingDataItem
  dsimp only
  split
  · exact .inl (.refl s)
  · next hservice =>
      split
      · next info hlookup =>
          split
          · exact .inl (.refl s)
          · exact .inl ((Quiet.refl s).setPending (.inl hlookup)
              ⟨rfl, rfl, rfl, rfl, rfl, rfl, .inl⟩)
      · next hnew =>
          split
          · next howned =>
              split
              · exact .inl (.refl s)
              · next receipt hreceipt =>
                  exact .inr (.inr
                    ⟨receipt, _, not_not.mp hservice, hnew, howned, hreceipt, rfl, rfl⟩)
          · exact .inr (.inl rfl)

/-- A receipt is dropped, or it finds a message with its hash and is believed. At the origin it is the
end of the message; elsewhere it is kept. -/
theorem handleIncomingReceiptItem_cases (c : Crypto) (s : Router) (receipt : SignedReceiptItem) :
    s.handleIncomingReceiptItem c env receipt = s ∨
      ∃ info, s.pendingMessages[receipt.routingId]? = some info ∧
        receipt.dataHash = info.itemHash ∧ Believed c env receipt info.routingFlags.isOrigin ∧
        (info.routingFlags.isOrigin = true ∧
            (∃ events, s.handleIncomingReceiptItem c env receipt =
              Router.record
                { s.setPending receipt.routingId { info with dataStatus := .done } with
                  acceptedReceipts := s.acceptedReceipts ++ [(info, receipt)] } events ∧
              ∀ event ∈ events, ∃ signer, event =
                .notifyDataStatus receipt.routingId signer .received) ∨
          info.routingFlags.isOrigin = false ∧
            s.handleIncomingReceiptItem c env receipt =
              s.setPending receipt.routingId
                { info with dataStatus := .receiptOk, receiptItem := some receipt }) := by
  unfold handleIncomingReceiptItem
  split
  · exact .inl rfl
  · next info hlookup =>
      split
      · exact .inl rfl
      · next hhash =>
          split
          · exact .inl rfl
          · next hbelieved =>
              refine .inr ⟨info, hlookup, not_not.mp hhash, not_not.mp hbelieved, ?_⟩
              split
              · next horigin =>
                  refine .inl ⟨horigin, ?_⟩
                  dsimp only
                  split
                  · exact ⟨_, rfl, fun event hmem => ⟨_, List.mem_singleton.mp hmem⟩⟩
                  · exact ⟨[], (record_nil _).symm, by simp⟩
              · next horigin => exact .inr ⟨Bool.not_eq_true _ ▸ horigin, rfl⟩

end Router

end RetroShare.GRouter
