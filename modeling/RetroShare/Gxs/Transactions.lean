import RetroShare.Foundation.Loop
import RetroShare.Foundation.OrderedMap

/-!
# GXS transactions

`RsGxsNetService` collects the items that a peer sends under a transaction number, whatever they are,
and consumes them once the transaction is complete. What a completed list makes the service send, and
its bookkeeping of update times, are arguments here: they see the items of the right kind only.
-/

namespace RetroShare.Gxs

abbrev RsPeerId := Nat

abbrev RsPgpId := Nat

/-- The null group id is 0. -/
abbrev RsGxsGroupId := Nat

abbrev RsGxsMessageId := Nat

abbrev RsGxsId := Nat

abbrev RsGxsCircleId := Nat

/-! ### Items -/

structure RsNxsSyncGrpItem where
  grpId : RsGxsGroupId
  publishTs : Nat
  authorId : RsGxsId
  deriving DecidableEq

structure RsNxsSyncMsgItem where
  grpId : RsGxsGroupId
  msgId : RsGxsMessageId
  authorId : RsGxsId
  deriving DecidableEq

structure RsNxsGrp where
  grpId : RsGxsGroupId
  grp : List UInt8
  metaBin : List UInt8
  deriving DecidableEq

structure RsNxsMsg where
  grpId : RsGxsGroupId
  msgId : RsGxsMessageId
  msg : List UInt8
  metaBin : List UInt8
  deriving DecidableEq

/-- The classes below `RsNxsItem` that `dynamic_cast` is asked for, and all the others. -/
inductive Content
  | syncGrp (item : RsNxsSyncGrpItem)
  | syncMsg (item : RsNxsSyncMsgItem)
  | grp (item : RsNxsGrp)
  | msg (item : RsNxsMsg)
  | other (subType : UInt8)
  deriving DecidableEq

def Content.syncGrp? : Content → Option RsNxsSyncGrpItem
  | syncGrp item => some item
  | _ => none

def Content.syncMsg? : Content → Option RsNxsSyncMsgItem
  | syncMsg item => some item
  | _ => none

def Content.grp? : Content → Option RsNxsGrp
  | grp item => some item
  | _ => none

def Content.msg? : Content → Option RsNxsMsg
  | msg item => some item
  | _ => none

/-- `RsNxsItem`, unless it is a `RsNxsTransacItem`. -/
structure NxsItem where
  peerId : RsPeerId
  transactionNumber : Nat
  content : Content
  deriving DecidableEq

structure RsNxsTransacItem where
  peerId : RsPeerId
  transactionNumber : Nat
  transactFlag : UInt16
  nItems : Nat
  updateTS : Nat
  timestamp : Nat
  deriving DecidableEq

/-! ### Flags -/

/-- `FLAG_BEGIN_P1` -/
def flagBeginP1 : UInt16 := 0x0001

/-- `FLAG_BEGIN_P2` -/
def flagBeginP2 : UInt16 := 0x0002

/-- `FLAG_END_SUCCESS` -/
def flagEndSuccess : UInt16 := 0x0004

/-- `FLAG_STATE_STARTING` -/
def flagStateStarting : UInt32 := 0x0001

/-- `FLAG_STATE_SENDING` -/
def flagStateSending : UInt32 := 0x0004

/-- `FLAG_STATE_FAILED` -/
def flagStateFailed : UInt32 := 0x0010

/-- `FLAG_STATE_COMPLETED` -/
def flagStateCompleted : UInt32 := 0x0080

/-- What a transaction declares to hold. -/
inductive TransactionType
  | msgListResp
  | grpListResp
  | msgListReq
  | grpListReq
  | grps
  | msgs
  deriving DecidableEq

/-- The `FLAG_TYPE_` constants, first come first served: a peer may set several. -/
def transactionType (flag : UInt16) : Option TransactionType :=
  if flag &&& 0x0200 ≠ 0 then some .msgListResp
  else if flag &&& 0x0100 ≠ 0 then some .grpListResp
  else if flag &&& 0x0800 ≠ 0 then some .msgListReq
  else if flag &&& 0x0400 ≠ 0 then some .grpListReq
  else if flag &&& 0x1000 ≠ 0 then some .grps
  else if flag &&& 0x2000 ≠ 0 then some .msgs
  else none

/-! ### The service -/

structure NxsTransaction where
  mFlag : UInt32
  mTimeOut : Nat
  mTransaction : RsNxsTransacItem
  mItems : List NxsItem

def NxsTransaction.Completed (tr : NxsTransaction) : Prop := tr.mFlag &&& flagStateCompleted ≠ 0

instance (tr : NxsTransaction) : Decidable tr.Completed := by
  unfold NxsTransaction.Completed
  infer_instance

/-- The items of one kind in the order in which they came. -/
def NxsTransaction.casts {Item : Type} (cast : Content → Option Item) (tr : NxsTransaction) :
    List Item :=
  tr.mItems.filterMap fun item => cast item.content

structure NetService (World : Type) where
  mOwnId : RsPeerId
  mTransactionTimeOut : Nat
  mTransactions : OrderedMap (RsPeerId ×ₗ Nat) NxsTransaction
  mComplTransactions : List NxsTransaction
  mNewGroupsToNotify : List RsNxsGrp
  mNewMessagesToNotify : List RsNxsMsg
  mClientGrpUpdateMap : OrderedMap RsPeerId Nat
  world : World

section Transactions

variable {World : Type}

/-! ### Receiving -/

/-- `locked_processTransac`; `false` where the item is not wanted. -/
def NetService.processTransac (now : Nat) (item : RsNxsTransacItem) (s : NetService World) :
    Bool × NetService World :=
  let peer :=
    if item.transactFlag &&& (flagBeginP2 ||| flagEndSuccess) ≠ 0 then s.mOwnId else item.peerId
  let item := { item with timestamp := now }
  let key := toLex (peer, item.transactionNumber)
  let known := s.mTransactions[key]?
  if item.transactFlag &&& flagBeginP1 ≠ 0 then
    match known with
    | some _ => (false, s)
    | none =>
        let tr := ⟨flagStateStarting, item.timestamp + s.mTransactionTimeOut, item, []⟩
        (true, { s with mTransactions := s.mTransactions.insert key tr })
  else if item.transactFlag &&& flagBeginP2 ≠ 0 then
    match known with
    | some tr =>
        let tr := { tr with mFlag := flagStateSending }
        (true, { s with mTransactions := s.mTransactions.insert key tr })
    | none => (false, s)
  else if item.transactFlag &&& flagEndSuccess ≠ 0 then
    match known with
    | some tr =>
        let tr := { tr with mFlag := flagStateCompleted }
        (true, { s with mTransactions := s.mTransactions.insert key tr })
    | none => (false, s)
  else (false, s)

/-- `handleTransaction` for the content of a transaction. -/
def NetService.handleContent (item : NxsItem) (s : NetService World) : Bool × NetService World :=
  let key := toLex (item.peerId, item.transactionNumber)
  match s.mTransactions[key]? with
  | some tr =>
      let tr := { tr with mItems := tr.mItems ++ [item] }
      (true, { s with mTransactions := s.mTransactions.insert key tr })
  | none => (false, s)

/-! ### Completed transactions -/

/-- The rest of what a completed transaction does, given the items that were cast. -/
structure Consequences (World : Type) where
  requestMsgs : RsNxsTransacItem → List RsNxsSyncMsgItem → World → World
  /-- Also whether anything is requested. -/
  requestGrps : RsNxsTransacItem → List RsNxsSyncGrpItem → World → Bool × World
  sendMsgs : RsNxsTransacItem → List RsNxsSyncMsgItem → World → World
  sendGrps : RsNxsTransacItem → List RsNxsSyncGrpItem → World → World
  doMsgUpdateWork : RsNxsTransacItem → RsGxsGroupId → World → World
  stampMsgServerUpdateTS : RsGxsGroupId → World → World

variable (after : Consequences World)

/-- `mClientGrpUpdateMap[peer].grpUpdateTS = updateTS` -/
def NetService.stampGrpUpdate (tr : NxsTransaction) (s : NetService World) : NetService World :=
  { s with mClientGrpUpdateMap :=
      s.mClientGrpUpdateMap.insert tr.mTransaction.peerId tr.mTransaction.updateTS }

/-- `locked_genReqMsgTransaction` -/
def NetService.genReqMsgTransaction (tr : NxsTransaction) (s : NetService World) : NetService World :=
  match tr.casts Content.syncMsg? with
  | [] => s
  | msgItemL => { s with world := after.requestMsgs tr.mTransaction msgItemL s.world }

/-- `locked_genReqGrpTransaction` -/
def NetService.genReqGrpTransaction (tr : NxsTransaction) (s : NetService World) : NetService World :=
  match tr.casts Content.syncGrp? with
  | [] => s.stampGrpUpdate tr
  | grpItemL =>
      let (requested, world) := after.requestGrps tr.mTransaction grpItemL s.world
      let s := { s with world := world }
      if requested then s else s.stampGrpUpdate tr

/-- All the items are of one group; a null group id does not count. -/
def sameGroup : RsGxsGroupId → List RsNxsSyncMsgItem → Bool
  | _, [] => true
  | grpId, item :: rest =>
      if grpId = 0 then sameGroup item.grpId rest
      else if grpId ≠ item.grpId then false
      else sameGroup grpId rest

/-- `locked_genSendMsgsTransaction` -/
def NetService.genSendMsgsTransaction (tr : NxsTransaction) (s : NetService World) :
    NetService World :=
  let msgIds := tr.casts Content.syncMsg?
  if tr.mItems.isEmpty then s
  -- "transaction on two different groups! ERROR!"
  else if !sameGroup 0 msgIds then s
  else { s with world := after.sendMsgs tr.mTransaction msgIds s.world }

/-- `locked_genSendGrpsTransaction` -/
def NetService.genSendGrpsTransaction (tr : NxsTransaction) (s : NetService World) :
    NetService World :=
  match tr.casts Content.syncGrp? with
  | [] => s
  | grps => { s with world := after.sendGrps tr.mTransaction grps s.world }

/-- A loop that takes the items of one kind out of a transaction. -/
structure Drain (Item : Type) where
  mItems : List NxsItem
  taken : List Item

/-- The body of the loop. Only an item of the right kind is popped. -/
def Drain.pass {Item : Type} (cast : Content → Option Item) (drain : Drain Item) :
    Option (Drain Item) :=
  match drain.mItems with
  | [] => none
  | front :: rest =>
      match cast front.content with
      | some item => some ⟨rest, drain.taken ++ [item]⟩
      | none => some drain

/-- The first group id that is not null. -/
def firstGroup (msgs : List RsNxsMsg) : RsGxsGroupId :=
  ((msgs.map (·.grpId)).find? (· ≠ 0)).getD 0

/-- `locked_processCompletedIncomingTrans`, where no loop runs longer than `fuel` looks. -/
def NetService.processCompletedIncomingTrans (fuel : Nat) (tr : NxsTransaction)
    (s : NetService World) : Option (NetService World) :=
  if tr.Completed then
    match transactionType tr.mTransaction.transactFlag with
    | some .msgListResp => some (s.genReqMsgTransaction after tr)
    | some .grpListResp => some (s.genReqGrpTransaction after tr)
    | some .msgListReq => some (s.genSendMsgsTransaction after tr)
    | some .grpListReq => some (s.genSendGrpsTransaction after tr)
    | some .grps => do
        let drained ← Loop.run (Drain.pass Content.grp?) fuel ⟨tr.mItems, []⟩
        let s := { s with mNewGroupsToNotify := s.mNewGroupsToNotify ++ drained.taken }
        some (s.stampGrpUpdate tr)
    | some .msgs => do
        let drained ← Loop.run (Drain.pass Content.msg?) fuel ⟨tr.mItems, []⟩
        let grpId := firstGroup drained.taken
        some { s with
          mNewMessagesToNotify := s.mNewMessagesToNotify ++ drained.taken
          world := after.stampMsgServerUpdateTS grpId
            (after.doMsgUpdateWork tr.mTransaction grpId s.world) }
    | none => some s
  -- a failed transaction will simply be cleaned
  else some s

/-- One pass of the loop of `processCompletedTransactions`: of an outgoing transaction only debug
output is made. -/
def NetService.processFront (fuel : Nat) (s : NetService World) (tr : NxsTransaction) :
    Option (NetService World) :=
  let handled :=
    if tr.mTransaction.peerId = s.mOwnId then some s
    else s.processCompletedIncomingTrans after fuel tr
  handled.map fun s => { s with mComplTransactions := s.mComplTransactions.tail }

/-- `processCompletedTransactions`; nothing in the loop adds to the queue. -/
def NetService.processCompletedTransactions (fuel : Nat) (s : NetService World) :
    Option (NetService World) :=
  s.mComplTransactions.foldlM (NetService.processFront after fuel) s

end Transactions

end RetroShare.Gxs
