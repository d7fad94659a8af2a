import Mathlib.Tactic
import RetroShare.Gxs.Transactions

/-!
# Which completed transactions are consumed

The two loops that take groups and messages out of a transaction pop an item only when its class is
the declared one, and `handleContent` lets a peer put items of any class under a transaction number.
-/

namespace RetroShare.Gxs

open Loop

section Drain

variable {Item : Type} {cast : Content → Option Item}

/-- A loop that meets an item of another class looks at it for ever. -/
theorem Drain.not_ends {drain final : Drain Item} {item : NxsItem} (hmem : item ∈ drain.mItems)
    (hcast : cast item.content = none) : ¬Ends (Drain.pass cast) drain final := by
  refine Loop.not_ends (fun drain => item ∈ drain.mItems) (fun drain hmem => ?_) hmem
  cases hitems : drain.mItems with
  | nil => exact absurd (hitems ▸ hmem) List.not_mem_nil
  | cons front rest =>
      cases hfront : cast front.content with
      | none => exact ⟨drain, by simp only [pass, hitems, hfront], hmem⟩
      | some got =>
          refine ⟨⟨rest, drain.taken ++ [got]⟩, by simp only [pass, hitems, hfront], ?_⟩
          have hne : item ≠ front := by
            rintro rfl
            cases hcast.symm.trans hfront
          exact (List.mem_cons.mp (hitems ▸ hmem)).resolve_left hne

theorem Drain.ends : ∀ (items : List NxsItem) (taken : List Item),
    (∀ item ∈ items, (cast item.content).isSome) →
      Ends (Drain.pass cast) ⟨items, taken⟩
        ⟨[], taken ++ items.filterMap fun item => cast item.content⟩
  | [], taken, _ => (ends_of_none rfl).mpr (by simp)
  | front :: rest, taken, hcasts => by
      obtain ⟨got, hgot⟩ := Option.isSome_iff_exists.mp (hcasts front List.mem_cons_self)
      have hpass : Drain.pass cast ⟨front :: rest, taken⟩ = some ⟨rest, taken ++ [got]⟩ := by
        simp only [pass, hgot]
      have hends := ends rest (taken ++ [got]) fun item hmem =>
        hcasts item (List.mem_cons_of_mem _ hmem)
      rw [ends_of_some hpass]
      simpa only [List.filterMap_cons, hgot, List.append_assoc, List.singleton_append] using hends

/-- The loop ends exactly when all items are of the class it looks for, and then it has them all. -/
theorem Drain.ends_iff {items : List NxsItem} {final : Drain Item} :
    Ends (Drain.pass cast) ⟨items, []⟩ final ↔
      (∀ item ∈ items, (cast item.content).isSome) ∧
        final = ⟨[], items.filterMap fun item => cast item.content⟩ := by
  constructor
  · intro hends
    have hcasts : ∀ item ∈ items, (cast item.content).isSome := by
      intro item hmem
      by_contra hnone
      exact not_ends hmem (Option.not_isSome_iff_eq_none.mp hnone) hends
    exact ⟨hcasts, (ends items [] hcasts).unique hends⟩
  · rintro ⟨hcasts, rfl⟩
    exact ends items [] hcasts

end Drain

variable {World : Type} {after : Consequences World} {s t : NetService World} {tr : NxsTransaction}

/-! ### Receiving content -/

/-- The class of an item does not matter. -/
theorem NetService.handleContent_accepts {item : NxsItem}
    (hknown : s.mTransactions[toLex (item.peerId, item.transactionNumber)]? = some tr) :
    (s.handleContent item).1 = true ∧
      (s.handleContent item).2.mTransactions[toLex (item.peerId, item.transactionNumber)]? =
        some { tr with mItems := tr.mItems ++ [item] } := by
  rw [handleContent, hknown]
  exact ⟨rfl, OrderedMap.lookup_insert_self _ _ _⟩

/-! ### One transaction -/

/-- The transaction is consumed as one that holds groups, or messages. -/
def NxsTransaction.Declares (ownId : RsPeerId) (type : TransactionType) (tr : NxsTransaction) : Prop :=
  tr.mTransaction.peerId ≠ ownId ∧ tr.Completed ∧
    transactionType tr.mTransaction.transactFlag = some type

instance (ownId : RsPeerId) (type : TransactionType) (tr : NxsTransaction) :
    Decidable (tr.Declares ownId type) := by
  unfold NxsTransaction.Declares
  infer_instance

/-- The items of a kind, where the transaction declares that kind. -/
def NxsTransaction.declared {Item : Type} (ownId : RsPeerId) (type : TransactionType)
    (cast : Content → Option Item) (tr : NxsTransaction) : List Item :=
  if tr.Declares ownId type then tr.casts cast else []

/-- The transaction holds nothing but groups if it declares groups, nor but messages if it declares
messages. -/
def NxsTransaction.Pure (ownId : RsPeerId) (tr : NxsTransaction) : Prop :=
  (tr.Declares ownId .grps → ∀ item ∈ tr.mItems, item.content.grp?.isSome) ∧
    (tr.Declares ownId .msgs → ∀ item ∈ tr.mItems, item.content.msg?.isSome)

/-- The observers got what the transaction declares, and the queue is as before. -/
structure Delivered (tr : NxsTransaction) (s t : NetService World) : Prop where
  ownId : t.mOwnId = s.mOwnId
  queue : t.mComplTransactions = s.mComplTransactions
  groups : t.mNewGroupsToNotify =
    s.mNewGroupsToNotify ++ tr.declared s.mOwnId .grps Content.grp?
  messages : t.mNewMessagesToNotify =
    s.mNewMessagesToNotify ++ tr.declared s.mOwnId .msgs Content.msg?

/-- A handler that leaves the queues alone delivers what a list declares: nothing. -/
theorem Delivered.of_frame (hgrps : ¬tr.Declares s.mOwnId .grps) (hmsgs : ¬tr.Declares s.mOwnId .msgs)
    (hownId : t.mOwnId = s.mOwnId) (hqueue : t.mComplTransactions = s.mComplTransactions)
    (hgroups : t.mNewGroupsToNotify = s.mNewGroupsToNotify)
    (hmessages : t.mNewMessagesToNotify = s.mNewMessagesToNotify) : Delivered tr s t where
  ownId := hownId
  queue := hqueue
  groups := by rw [hgroups, NxsTransaction.declared, if_neg hgrps, List.append_nil]
  messages := by rw [hmessages, NxsTransaction.declared, if_neg hmsgs, List.append_nil]

theorem NxsTransaction.Pure.of_lists {ownId : RsPeerId} (hgrps : ¬tr.Declares ownId .grps)
    (hmsgs : ¬tr.Declares ownId .msgs) : tr.Pure ownId :=
  ⟨fun hdeclares => absurd hdeclares hgrps, fun hdeclares => absurd hdeclares hmsgs⟩

theorem NetService.genReqMsgTransaction_frame :
    let t := s.genReqMsgTransaction after tr
    t.mOwnId = s.mOwnId ∧ t.mComplTransactions = s.mComplTransactions ∧
      t.mNewGroupsToNotify = s.mNewGroupsToNotify ∧
      t.mNewMessagesToNotify = s.mNewMessagesToNotify := by
  unfold genReqMsgTransaction
  split <;> exact ⟨rfl, rfl, rfl, rfl⟩

theorem NetService.genReqGrpTransaction_frame :
    let t := s.genReqGrpTransaction after tr
    t.mOwnId = s.mOwnId ∧ t.mComplTransactions = s.mComplTransactions ∧
      t.mNewGroupsToNotify = s.mNewGroupsToNotify ∧
      t.mNewMessagesToNotify = s.mNewMessagesToNotify := by
  unfold genReqGrpTransaction
  split
  · exact ⟨rfl, rfl, rfl, rfl⟩
  · dsimp only
    split <;> exact ⟨rfl, rfl, rfl, rfl⟩

theorem NetService.genSendMsgsTransaction_frame :
    let t := s.genSendMsgsTransaction after tr
    t.mOwnId = s.mOwnId ∧ t.mComplTransactions = s.mComplTransactions ∧
      t.mNewGroupsToNotify = s.mNewGroupsToNotify ∧
      t.mNewMessagesToNotify = s.mNewMessagesToNotify := by
  unfold genSendMsgsTransaction
  dsimp only
  split
  · exact ⟨rfl, rfl, rfl, rfl⟩
  · split <;> exact ⟨rfl, rfl, rfl, rfl⟩

theorem NetService.genSendGrpsTransaction_frame :
    let t := s.genSendGrpsTransaction after tr
    t.mOwnId = s.mOwnId ∧ t.mComplTransactions = s.mComplTransactions ∧
      t.mNewGroupsToNotify = s.mNewGroupsToNotify ∧
      t.mNewMessagesToNotify = s.mNewMessagesToNotify := by
  unfold genSendGrpsTransaction
  split <;> exact ⟨rfl, rfl, rfl, rfl⟩

theorem declares_iff {ownId : RsPeerId} {type : TransactionType}
    (hincoming : tr.mTransaction.peerId ≠ ownId) (hcompleted : tr.Completed) :
    tr.Declares ownId type ↔ transactionType tr.mTransaction.transactFlag = some type := by
  simp only [NxsTransaction.Declares, hincoming, hcompleted, ne_eq, not_false_iff, true_and]

/-- A completed transaction that is handled holds what it declares, and the observers get it. -/
theorem NetService.incoming_delivered {fuel : Nat} (hincoming : tr.mTransaction.peerId ≠ s.mOwnId)
    (hhandled : s.processCompletedIncomingTrans after fuel tr = some t) :
    tr.Pure s.mOwnId ∧ Delivered tr s t := by
  rw [processCompletedIncomingTrans] at hhandled
  split at hhandled
  case isFalse hopen =>
    have hno : ∀ type, ¬tr.Declares s.mOwnId type := fun type hdeclares => hopen hdeclares.2.1
    cases hhandled
    exact ⟨.of_lists (hno _) (hno _), .of_frame (hno _) (hno _) rfl rfl rfl rfl⟩
  case isTrue hcompleted =>
    have hdeclares : ∀ type, tr.Declares s.mOwnId type ↔
        transactionType tr.mTransaction.transactFlag = some type :=
      fun type => declares_iff hincoming hcompleted
    -- a type other than the two has no items for the observers
    have hother : ∀ {t : NetService World},
        transactionType tr.mTransaction.transactFlag ≠ some .grps →
        transactionType tr.mTransaction.transactFlag ≠ some .msgs →
        t.mOwnId = s.mOwnId ∧ t.mComplTransactions = s.mComplTransactions ∧
          t.mNewGroupsToNotify = s.mNewGroupsToNotify ∧
          t.mNewMessagesToNotify = s.mNewMessagesToNotify →
        tr.Pure s.mOwnId ∧ Delivered tr s t := by
      rintro t hgrps hmsgs ⟨hownId, hqueue, hgroups, hmessages⟩
      rw [ne_eq, ← hdeclares] at hgrps hmsgs
      exact ⟨.of_lists hgrps hmsgs, .of_frame hgrps hmsgs hownId hqueue hgroups hmessages⟩
    split at hhandled
    case h_1 htype =>
      cases hhandled
      exact hother (by simp [htype]) (by simp [htype]) genReqMsgTransaction_frame
    case h_2 htype =>
      cases hhandled
      exact hother (by simp [htype]) (by simp [htype]) genReqGrpTransaction_frame
    case h_3 htype =>
      cases hhandled
      exact hother (by simp [htype]) (by simp [htype]) genSendMsgsTransaction_frame
    case h_4 htype =>
      cases hhandled
      exact hother (by simp [htype]) (by simp [htype]) genSendGrpsTransaction_frame
    case h_5 htype =>
      obtain ⟨drained, hrun, hhandled⟩ := Option.bind_eq_some_iff.mp hhandled
      cases hhandled
      obtain ⟨hcasts, rfl⟩ := Drain.ends_iff.mp ⟨fuel, hrun⟩
      have hgrps := (hdeclares .grps).mpr htype
      have hmsgs : ¬tr.Declares s.mOwnId .msgs := by simp [hdeclares, htype]
      refine ⟨⟨fun _ => hcasts, fun hdeclared => absurd hdeclared hmsgs⟩, rfl, rfl, ?_, ?_⟩
      · rw [NxsTransaction.declared, if_pos hgrps]
        rfl
      · rw [NxsTransaction.declared, if_neg hmsgs, List.append_nil]
        rfl
    case h_6 htype =>
      obtain ⟨drained, hrun, hhandled⟩ := Option.bind_eq_some_iff.mp hhandled
      cases hhandled
      obtain ⟨hcasts, rfl⟩ := Drain.ends_iff.mp ⟨fuel, hrun⟩
      have hgrps : ¬tr.Declares s.mOwnId .grps := by simp [hdeclares, htype]
      have hmsgs := (hdeclares .msgs).mpr htype
      refine ⟨⟨fun hdeclared => absurd hdeclared hgrps, fun _ => hcasts⟩, rfl, rfl, ?_, ?_⟩
      · rw [NxsTransaction.declared, if_neg hgrps, List.append_nil]
      · rw [NxsTransaction.declared, if_pos hmsgs]
        rfl
    case h_7 htype =>
      cases hhandled
      exact hother (by simp [htype]) (by simp [htype]) ⟨rfl, rfl, rfl, rfl⟩

theorem NetService.incoming_defined (hincoming : tr.mTransaction.peerId ≠ s.mOwnId)
    (hpure : tr.Pure s.mOwnId) :
    ∃ fuel t, s.processCompletedIncomingTrans after fuel tr = some t := by
  unfold processCompletedIncomingTrans
  by_cases hcompleted : tr.Completed
  case neg => exact ⟨0, _, if_neg hcompleted⟩
  case pos =>
    simp only [if_pos hcompleted]
    cases htype : transactionType tr.mTransaction.transactFlag with
    | none => exact ⟨0, _, rfl⟩
    | some type =>
        cases type with
        | grps =>
            have hcasts := hpure.1 ((declares_iff hincoming hcompleted).mpr htype)
            obtain ⟨fuel, hrun⟩ := Drain.ends_iff.mpr ⟨hcasts, rfl⟩
            exact ⟨fuel, _, by rw [hrun]; rfl⟩
        | msgs =>
            have hcasts := hpure.2 ((declares_iff hincoming hcompleted).mpr htype)
            obtain ⟨fuel, hrun⟩ := Drain.ends_iff.mpr ⟨hcasts, rfl⟩
            exact ⟨fuel, _, by rw [hrun]; rfl⟩
        | msgListResp => exact ⟨0, _, rfl⟩
        | grpListResp => exact ⟨0, _, rfl⟩
        | msgListReq => exact ⟨0, _, rfl⟩
        | grpListReq => exact ⟨0, _, rfl⟩

/-- More time does not change what is done. -/
theorem NetService.incoming_mono {fuel fuel' : Nat} (hle : fuel ≤ fuel')
    (hhandled : s.processCompletedIncomingTrans after fuel tr = some t) :
    s.processCompletedIncomingTrans after fuel' tr = some t := by
  rw [processCompletedIncomingTrans] at hhandled ⊢
  split at hhandled
  case isFalse hopen => rwa [if_neg hopen]
  case isTrue hcompleted =>
    rw [if_pos hcompleted]
    split at hhandled
    case h_5 htype =>
      obtain ⟨drained, hrun, hhandled⟩ := Option.bind_eq_some_iff.mp hhandled
      exact Option.bind_eq_some_iff.mpr ⟨drained, run_mono hle hrun, hhandled⟩
    case h_6 htype =>
      obtain ⟨drained, hrun, hhandled⟩ := Option.bind_eq_some_iff.mp hhandled
      exact Option.bind_eq_some_iff.mpr ⟨drained, run_mono hle hrun, hhandled⟩
    all_goals exact hhandled

/-! ### The queue -/

/-- The first transaction of the queue was popped, and the observers got what it declares. -/
structure Consumed (tr : NxsTransaction) (s t : NetService World) : Prop where
  ownId : t.mOwnId = s.mOwnId
  queue : t.mComplTransactions = s.mComplTransactions.tail
  groups : t.mNewGroupsToNotify =
    s.mNewGroupsToNotify ++ tr.declared s.mOwnId .grps Content.grp?
  messages : t.mNewMessagesToNotify =
    s.mNewMessagesToNotify ++ tr.declared s.mOwnId .msgs Content.msg?

theorem NetService.processFront_consumed {fuel : Nat} (hfront : s.processFront after fuel tr = some t) :
    tr.Pure s.mOwnId ∧ Consumed tr s t := by
  obtain ⟨middle, hmiddle, rfl⟩ := Option.map_eq_some_iff.mp hfront
  split at hmiddle
  case isTrue hown =>
    cases hmiddle
    have hno : ∀ type, ¬tr.Declares s.mOwnId type := fun type hdeclares => hdeclares.1 hown
    have hdelivered : Delivered tr s s := .of_frame (hno _) (hno _) rfl rfl rfl rfl
    exact ⟨.of_lists (hno _) (hno _), rfl, rfl, hdelivered.groups, hdelivered.messages⟩
  case isFalse hincoming =>
    obtain ⟨hpure, hdelivered⟩ := incoming_delivered hincoming hmiddle
    exact ⟨hpure, hdelivered.ownId, congrArg List.tail hdelivered.queue, hdelivered.groups,
      hdelivered.messages⟩

theorem NetService.processFront_defined (hpure : tr.Pure s.mOwnId) :
    ∃ fuel t, s.processFront after fuel tr = some t := by
  unfold processFront
  by_cases hown : tr.mTransaction.peerId = s.mOwnId
  · exact ⟨0, _, by rw [if_pos hown]; rfl⟩
  · have hdefined : ∃ fuel t, s.processCompletedIncomingTrans after fuel tr = some t :=
      incoming_defined hown hpure
    obtain ⟨fuel, t, ht⟩ := hdefined
    exact ⟨fuel, _, by rw [if_neg hown, ht]; rfl⟩

theorem NetService.processFront_mono {fuel fuel' : Nat} (hle : fuel ≤ fuel')
    (hfront : s.processFront after fuel tr = some t) : s.processFront after fuel' tr = some t := by
  obtain ⟨middle, hmiddle, hpop⟩ := Option.map_eq_some_iff.mp hfront
  refine Option.map_eq_some_iff.mpr ⟨middle, ?_, hpop⟩
  split at hmiddle
  case isTrue hown => rwa [if_pos hown]
  case isFalse hown =>
    rw [if_neg hown]
    exact incoming_mono hle hmiddle

/-- The condition under which the queue is consumed. -/
def NetService.AllPure (s : NetService World) : Prop :=
  ∀ tr ∈ s.mComplTransactions, tr.Pure s.mOwnId

/-- What a whole queue hands to the observers. -/
def NetService.declared {Item : Type} (type : TransactionType) (cast : Content → Option Item)
    (s : NetService World) (trs : List NxsTransaction) : List Item :=
  trs.flatMap fun tr => tr.declared s.mOwnId type cast

theorem NetService.foldlM_consumed {fuel : Nat} :
    ∀ (trs : List NxsTransaction) {s t : NetService World}, s.mComplTransactions = trs →
      trs.foldlM (NetService.processFront after fuel) s = some t →
      (∀ tr ∈ trs, tr.Pure s.mOwnId) ∧ t.mComplTransactions = [] ∧
        t.mNewGroupsToNotify = s.mNewGroupsToNotify ++ s.declared .grps Content.grp? trs ∧
        t.mNewMessagesToNotify = s.mNewMessagesToNotify ++ s.declared .msgs Content.msg? trs
  | [], s, _, hqueue, hloop => by
      cases hloop
      simp [declared, hqueue]
  | tr :: rest, s, t, hqueue, hloop => by
      rw [List.foldlM_cons] at hloop
      obtain ⟨middle, hfront, hloop⟩ := Option.bind_eq_some_iff.mp hloop
      obtain ⟨hpure, hconsumed⟩ := processFront_consumed hfront
      have hrest : middle.mComplTransactions = rest := by rw [hconsumed.queue, hqueue, List.tail_cons]
      obtain ⟨hpures, hempty, hgroups, hmessages⟩ := foldlM_consumed rest hrest hloop
      rw [hconsumed.ownId] at hpures
      refine ⟨?_, hempty, ?_, ?_⟩
      · rintro other (_ | ⟨_, hmem⟩)
        · exact hpure
        · exact hpures other hmem
      · rw [hgroups, hconsumed.groups, declared, declared, hconsumed.ownId, List.append_assoc,
          List.flatMap_cons]
      · rw [hmessages, hconsumed.messages, declared, declared, hconsumed.ownId, List.append_assoc,
          List.flatMap_cons]

theorem NetService.foldlM_defined :
    ∀ (trs : List NxsTransaction) (s : NetService World), (∀ tr ∈ trs, tr.Pure s.mOwnId) →
      ∃ fuel t, trs.foldlM (NetService.processFront after fuel) s = some t
  | [], s, _ => ⟨0, s, rfl⟩
  | tr :: rest, s, hpures => by
      have hdefined : ∃ fuel middle, s.processFront after fuel tr = some middle :=
        processFront_defined (hpures tr List.mem_cons_self)
      obtain ⟨fuel, middle, hfront⟩ := hdefined
      have hownId := (processFront_consumed hfront).2.ownId
      obtain ⟨fuel', t, hloop⟩ := foldlM_defined rest middle fun other hmem =>
        hownId ▸ hpures other (List.mem_cons_of_mem _ hmem)
      refine ⟨max fuel fuel', t, ?_⟩
      rw [List.foldlM_cons, processFront_mono (le_max_left _ _) hfront]
      exact foldlM_mono (fun _ _ _ => processFront_mono (le_max_right _ _)) rest hloop

/-- **Consuming completed transactions.** The loop ends, with the queue empty and with the observers
having what the transactions declare, exactly when every completed incoming transaction that is taken
for groups, or for messages, holds nothing else. -/
theorem processCompletedTransactions_iff (after : Consequences World) (s : NetService World) :
    (∃ fuel t, s.processCompletedTransactions after fuel = some t ∧ t.mComplTransactions = [] ∧
        t.mNewGroupsToNotify =
          s.mNewGroupsToNotify ++ s.declared .grps Content.grp? s.mComplTransactions ∧
        t.mNewMessagesToNotify =
          s.mNewMessagesToNotify ++ s.declared .msgs Content.msg? s.mComplTransactions) ↔
      s.AllPure := by
  constructor
  · rintro ⟨fuel, t, hloop, -⟩
    exact (NetService.foldlM_consumed s.mComplTransactions rfl hloop).1
  · intro hpures
    obtain ⟨fuel, t, hloop⟩ := NetService.foldlM_defined s.mComplTransactions s hpures
    exact ⟨fuel, t, hloop, (NetService.foldlM_consumed s.mComplTransactions rfl hloop).2⟩

/-! ### A transaction of groups that holds something else -/

/-- Peer 2 has opened transaction 7, which is to hold one group. -/
def opened : NetService Unit :=
  let s : NetService Unit := ⟨1, 2000, ∅, [], [], [], ∅, ()⟩
  (s.processTransac 0 ⟨2, 7, 0x1001, 1, 0, 0⟩).2

/-- The item that peer 2 sends under number 7 is an entry of a group list. -/
def foreignItem : NxsItem := ⟨2, 7, .syncGrp ⟨3, 0, 0⟩⟩

/-- The transaction that holds the item, completed. -/
def foreignTransaction : NxsTransaction :=
  ⟨flagStateCompleted, 2000, ⟨2, 7, 0x1001, 1, 0, 0⟩, [foreignItem]⟩

theorem opened_transaction : opened.mTransactions[toLex (2, 7)]? =
    some { foreignTransaction with mFlag := flagStateStarting, mItems := [] } := by
  have hfresh : (∅ : OrderedMap (RsPeerId ×ₗ Nat) NxsTransaction)[toLex (2, 7)]? = none := by simp
  have hopened : opened.mTransactions = (∅ : OrderedMap (RsPeerId ×ₗ Nat) NxsTransaction).insert
      (toLex (2, 7)) { foreignTransaction with mFlag := flagStateStarting, mItems := [] } := by
    simp only [opened, NetService.processTransac]
    rw [if_pos (by decide), if_neg (by decide), hfresh]
    rfl
  rw [hopened, OrderedMap.lookup_insert_self]

theorem opened_ownId : opened.mOwnId = 1 := by
  simp only [opened, NetService.processTransac]
  split <;> split <;> rfl

theorem foreignTransaction_declares : foreignTransaction.Declares opened.mOwnId .grps := by
  rw [opened_ownId]
  decide

/-- The item is accepted into the transaction, which is never consumed. -/
theorem processCompletedTransactions_counterexample :
    (opened.handleContent foreignItem).1 = true ∧
      ((opened.handleContent foreignItem).2.mTransactions[toLex (2, 7)]?).map
          (fun tr => { tr with mFlag := flagStateCompleted }) = some foreignTransaction ∧
      ¬∃ after fuel t, NetService.processCompletedTransactions after fuel
        { opened with mComplTransactions := [foreignTransaction] } = some t := by
  have hknown : opened.mTransactions[toLex (foreignItem.peerId, foreignItem.transactionNumber)]? =
    some { foreignTransaction with mFlag := flagStateStarting, mItems := [] } := opened_transaction
  obtain ⟨haccepted, hstored⟩ := NetService.handleContent_accepts hknown
  refine ⟨haccepted, ?_, ?_⟩
  · exact (congrArg _ hstored).trans rfl
  · rintro ⟨after, fuel, t, hloop⟩
    obtain ⟨hpures, -⟩ := NetService.foldlM_consumed [foreignTransaction] rfl hloop
    have hgroup := (hpures foreignTransaction (List.mem_singleton_self _)).1
      foreignTransaction_declares foreignItem (List.mem_singleton_self _)
    cases hgroup

end RetroShare.Gxs
