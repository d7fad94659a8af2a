import RetroShare.Gxs.Transactions

/-!
# Circle vetting

`RsGxsNetService::runVetting` turns the id lists that were held back until their circles are known
into transactions. The circle, identity and encryption services, the clock and the transactions
themselves are arguments here: each of their calls may find them changed by other threads.
-/

namespace RetroShare.Gxs

/-! ### Pending vettings -/

structure GrpIdCircleVet where
  mGroupId : RsGxsGroupId
  mCircleId : RsGxsCircleId
  mAuthorId : RsGxsId
  mShouldEncrypt : Bool
  mCleared : Bool

structure MsgIdCircleVet where
  mMsgId : RsGxsMessageId
  mAuthorId : RsGxsId

structure GrpCircleIdRequestVetting where
  mTimeStamp : Int
  mGrpCircleV : List GrpIdCircleVet
  mPeerId : RsPeerId

structure MsgCircleIdsRequestVetting where
  mTimeStamp : Int
  mMsgs : List MsgIdCircleVet
  mGrpId : RsGxsGroupId
  mPeerId : RsPeerId
  mCircleId : RsGxsCircleId
  mShouldEncrypt : Bool

/-- The two types that `mPendingCircleVets` holds, `GRP_ID_PEND` and `MSG_ID_SEND_PEND`. -/
inductive GrpCircleVetting
  | grpIdPend (gcirv : GrpCircleIdRequestVetting)
  | msgIdSendPend (mcirv : MsgCircleIdsRequestVetting)

def GrpCircleVetting.mTimeStamp : GrpCircleVetting → Int
  | grpIdPend gcirv => gcirv.mTimeStamp
  | msgIdSendPend mcirv => mcirv.mTimeStamp

/-- `EXPIRY_PERIOD_OFFSET` -/
def expiryPeriodOffset : Int := 5

/-! ### Answers -/

/-- `RsNxsSyncGrpItem` and `RsNxsSyncMsgItem`, both with the flag `FLAG_RESPONSE`. -/
inductive ResponseItem
  | syncGrp (grpId : RsGxsGroupId) (publishTs : Nat) (authorId : RsGxsId) (peerId : RsPeerId)
      (transactionNumber : UInt32)
  | syncMsg (grpId : RsGxsGroupId) (msgId : RsGxsMessageId) (authorId : RsGxsId) (peerId : RsPeerId)
      (transactionNumber : UInt32)

/-- An item of an answer, in the clear or as a `RsNxsEncryptedDataItem`. -/
inductive RespListItem (Encrypted : Type)
  | clear (item : ResponseItem)
  | encrypted (item : Encrypted)

/-- What the pass calls. -/
structure Surroundings (World Encrypted : Type) where
  time : StateM World Int
  isLoaded : RsGxsCircleId → StateM World Bool
  loadCircle : RsGxsCircleId → StateM World Unit
  isRecipient : RsGxsCircleId → RsGxsGroupId → RsGxsId → StateM World Bool
  getPGPId : RsPeerId → StateM World RsPgpId
  /-- The answer and `should_encrypt`, which stays as it is where the circle is not cached. -/
  canSend : RsGxsCircleId → RsPgpId → Bool → StateM World (Bool × Bool)
  encryptSingleNxsItem : ResponseItem → RsGxsCircleId → RsGxsGroupId → StateM World (Option Encrypted)
  getTransactionId : StateM World UInt32
  pushGrpRespFromList : List (RespListItem Encrypted) → RsPeerId → UInt32 → StateM World Unit
  pushMsgRespFromList :
    List (RespListItem Encrypted) → RsPeerId → RsGxsGroupId → UInt32 → StateM World Unit

section Pass

variable {World Encrypted : Type} (around : Surroundings World Encrypted)

/-! ### Clearing -/

/-- `GrpCircleVetting::canSend` -/
def canSend (peerId : RsPeerId) (circleId : RsGxsCircleId) (shouldEncrypt : Bool) :
    StateM World (Bool × Bool) := do
  if ← around.isLoaded circleId then
    let pgpId ← around.getPGPId peerId
    around.canSend circleId pgpId shouldEncrypt
  else
    around.loadCircle circleId
    pure (false, shouldEncrypt)

/-- The entry after `cleared` has looked at it; cleared entries are not looked at again. -/
def GrpIdCircleVet.clear (gic : GrpIdCircleVet) (peerId : RsPeerId) : StateM World GrpIdCircleVet := do
  if gic.mCleared then pure gic
  else
    let (send, shouldEncrypt) ← canSend around peerId gic.mCircleId gic.mShouldEncrypt
    pure { gic with mShouldEncrypt := shouldEncrypt, mCleared := send }

def GrpCircleIdRequestVetting.cleared (gcirv : GrpCircleIdRequestVetting) :
    StateM World (Bool × GrpCircleIdRequestVetting) := do
  let entries ← gcirv.mGrpCircleV.mapM fun gic => gic.clear around gcirv.mPeerId
  let count := (entries.filter (·.mCleared)).length
  pure (count = entries.length, { gcirv with mGrpCircleV := entries })

/-- `i` messages stay; the last message takes the place of one that is dropped. -/
def filterMsgs (circleId : RsGxsCircleId) (grpId : RsGxsGroupId) :
    (looks i : Nat) → List MsgIdCircleVet → StateM World (List MsgIdCircleVet)
  | 0, _, mMsgs => pure mMsgs
  | looks + 1, i, mMsgs =>
      match mMsgs[i]?, mMsgs.getLast? with
      | some msg, some last => do
          if ← around.isRecipient circleId grpId msg.mAuthorId then
            filterMsgs circleId grpId looks (i + 1) mMsgs
          else filterMsgs circleId grpId looks i (mMsgs.set i last).dropLast
      | _, _ => pure mMsgs

def MsgCircleIdsRequestVetting.cleared (mcirv : MsgCircleIdsRequestVetting) :
    StateM World (Bool × MsgCircleIdsRequestVetting) := do
  if ← around.isLoaded mcirv.mCircleId then
    -- every look either passes a message or drops one
    let mMsgs ← filterMsgs around mcirv.mCircleId mcirv.mGrpId mcirv.mMsgs.length 0 mcirv.mMsgs
    let pgpId ← around.getPGPId mcirv.mPeerId
    let (send, shouldEncrypt) ← around.canSend mcirv.mCircleId pgpId mcirv.mShouldEncrypt
    pure (shouldEncrypt || send, { mcirv with mMsgs := mMsgs, mShouldEncrypt := shouldEncrypt })
  else
    around.loadCircle mcirv.mCircleId
    pure (false, mcirv)

def GrpCircleVetting.cleared : GrpCircleVetting → StateM World (Bool × GrpCircleVetting)
  | grpIdPend gcirv => do
      let (clear, gcirv) ← gcirv.cleared around
      pure (clear, grpIdPend gcirv)
  | msgIdSendPend mcirv => do
      let (clear, mcirv) ← mcirv.cleared around
      pure (clear, msgIdSendPend mcirv)

def GrpCircleVetting.expired (gcv : GrpCircleVetting) : StateM World Bool := do
  let now ← around.time
  pure (gcv.mTimeStamp + expiryPeriodOffset < now)

/-! ### Transactions -/

/-- The item of a group, unless it is to be encrypted and cannot be. -/
def GrpIdCircleVet.item (entry : GrpIdCircleVet) (peerId : RsPeerId) (transN : UInt32) :
    StateM World (Option (RespListItem Encrypted)) := do
  let gItem := ResponseItem.syncGrp entry.mGroupId 0 entry.mAuthorId peerId transN
  if entry.mShouldEncrypt then
    let encryptedItem ← around.encryptSingleNxsItem gItem entry.mCircleId entry.mGroupId
    pure (encryptedItem.map .encrypted)
  else pure (some (.clear gItem))

def GrpCircleIdRequestVetting.createTransactionFromPending (grpPend : GrpCircleIdRequestVetting) :
    StateM World Bool := do
  let transN ← around.getTransactionId
  let items ← (grpPend.mGrpCircleV.filter (·.mCleared)).mapM fun entry =>
    entry.item around grpPend.mPeerId transN
  let itemL := items.filterMap id
  unless itemL.isEmpty do around.pushGrpRespFromList itemL grpPend.mPeerId transN
  pure true

/-- The item of a message id. -/
def MsgCircleIdsRequestVetting.item (msgPend : MsgCircleIdsRequestVetting) (transN : UInt32)
    (mic : MsgIdCircleVet) : ResponseItem :=
  .syncMsg msgPend.mGrpId mic.mMsgId mic.mAuthorId msgPend.mPeerId transN

/-- The items of the message ids, up to the first one that cannot be encrypted. -/
def MsgCircleIdsRequestVetting.items (msgPend : MsgCircleIdsRequestVetting) (transN : UInt32) :
    List MsgIdCircleVet → StateM World (Option (List (RespListItem Encrypted)))
  | [] => pure (some [])
  | mic :: rest => do
      let mItem := msgPend.item transN mic
      if msgPend.mShouldEncrypt then
        match ← around.encryptSingleNxsItem mItem msgPend.mCircleId msgPend.mGrpId with
        | some encryptedItem =>
            let itemL ← msgPend.items transN rest
            pure (itemL.map (.encrypted encryptedItem :: ·))
        | none => pure none
      else
        let itemL ← msgPend.items transN rest
        pure (itemL.map (.clear mItem :: ·))

def MsgCircleIdsRequestVetting.createTransactionFromPending (msgPend : MsgCircleIdsRequestVetting) :
    StateM World Bool := do
  let transN ← around.getTransactionId
  match ← msgPend.items around transN msgPend.mMsgs with
  | some itemL =>
      -- `grp_id` is set by every message of the list
      unless itemL.isEmpty do around.pushMsgRespFromList itemL msgPend.mPeerId msgPend.mGrpId transN
      pure true
  | none => pure false

/-! ### The pass -/

/-- One look at a pending vetting, and what was found: `created` is the outcome of the transaction,
where one was tried. -/
structure Examination where
  before : GrpCircleVetting
  after : GrpCircleVetting
  cleared : Bool
  expired : Bool
  created : Option Bool

/-- Neither cleared nor expired, or without the transaction it should have had. -/
def Examination.stays (exam : Examination) : Bool :=
  (!exam.cleared && !exam.expired) || exam.created = some false

/-- What happens to a vetting that is cleared or expired: whether there is a transaction for it. A
message request that has only expired has none. -/
def GrpCircleVetting.settle : GrpCircleVetting → StateM World (Option Bool × GrpCircleVetting)
  | grpIdPend gcirv => do
      let created ← gcirv.createTransactionFromPending around
      pure (some created, grpIdPend gcirv)
  | msgIdSendPend mcirv => do
      let (clear, mcirv) ← mcirv.cleared around
      if clear then
        let created ← mcirv.createTransactionFromPending around
        pure (some created, msgIdSendPend mcirv)
      else pure (none, msgIdSendPend mcirv)

/-- `cleared() || expired()`, with the outcome of each. -/
def GrpCircleVetting.due (gcv : GrpCircleVetting) : StateM World (Bool × Bool × GrpCircleVetting) := do
  let (clear, looked) ← gcv.cleared around
  if clear then pure (true, false, looked)
  else
    let old ← looked.expired around
    pure (false, old, looked)

def GrpCircleVetting.examine (gcv : GrpCircleVetting) : StateM World Examination := do
  let (clear, old, looked) ← gcv.due around
  if clear || old then
    let (created, settled) ← looked.settle around
    pure ⟨gcv, settled, clear, old, created⟩
  else pure ⟨gcv, looked, clear, old, none⟩

/-- `mPendingCircleVets` on both sides of the iterator, what was deleted, and every look that was
taken, in order. -/
structure Vetting (World : Type) where
  passed : List GrpCircleVetting
  pending : List GrpCircleVetting
  deleted : List GrpCircleVetting
  examined : List Examination
  world : World

/-- Where the loop of `runVetting` leaves its iterator after a look. -/
def Vetting.advance (exam : Examination) (rest : List GrpCircleVetting) (vet : Vetting World) :
    Vetting World :=
  if exam.cleared || exam.expired then
    match exam.after, exam.created with
    | .grpIdPend _, some false =>
        { vet with passed := vet.passed ++ [exam.after], pending := rest }
    -- `continue` with the iterator as it is: "keep it in the list for retry"
    | .msgIdSendPend _, some false => { vet with pending := exam.after :: rest }
    | _, _ => { vet with pending := rest, deleted := vet.deleted ++ [exam.after] }
  else { vet with passed := vet.passed ++ [exam.after], pending := rest }

/-- The body of the loop of `runVetting`. -/
def Vetting.pass (vet : Vetting World) : Option (Vetting World) :=
  match vet.pending with
  | [] => none
  | gcv :: rest =>
      let look := (gcv.examine around).run vet.world
      some { vet.advance look.1 rest with
        examined := vet.examined ++ [look.1]
        world := look.2 }

/-- `runVetting` on a list of pending vettings, before the first look. -/
def Vetting.start (mPendingCircleVets : List GrpCircleVetting) (world : World) : Vetting World :=
  ⟨[], mPendingCircleVets, [], [], world⟩

/-- `runVetting`, within `fuel` looks at the end of the list. -/
def runVetting (fuel : Nat) (mPendingCircleVets : List GrpCircleVetting) (world : World) :
    Option (Vetting World) :=
  Loop.run (Vetting.pass around) fuel (.start mPendingCircleVets world)

end Pass

end RetroShare.Gxs
