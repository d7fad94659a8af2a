import RetroShare.Serialiser.GenericSerializer

/-!
# The integrity cleanup of GXS mail

`p3GxsTrans::GxsTransIntegrityCleanupThread::run` goes once over all stored messages, and schedules
for deletion the mails it believes to have been receipted. The messages are those that
`retrieveNxsMsgs` returns: the groups in key order, the messages of a group in the order of their
rows.
-/

namespace RetroShare.GxsTrans

open Bytes Serialiser

abbrev RsGxsGroupId := Nat

abbrev RsGxsMessageId := Nat

abbrev RsGxsId := Nat

abbrev RsGxsTransId := Nat

/-! ### Messages -/

/-- `RsNxsMsg`: the bytes of the item and the metadata fields that the thread reads. -/
structure RsNxsMsg where
  mGroupId : RsGxsGroupId
  mMsgId : RsGxsMessageId
  mAuthorId : RsGxsId
  msg : List UInt8

/-- An item as far as the thread tells items apart. -/
inductive RsItem
  | mail (mailId : RsGxsTransId)
  | presignedReceipt (mailId : RsGxsTransId)
  | unknown
  deriving DecidableEq

/-- `mailId`, the only member of a receipt and the first of a mail. -/
def presignedReceiptMembers : Members ((BitVec 64) × Unit) :=
  .cons (.uint .word64) .nil

/-- `mailId`, `cryptoType`, `recipientHint` and `payload`. -/
def mailMembers := Members.cons (.uint .word64) <| .cons (.enum .byte) <|
  .cons (.id 16 (by decide)) <| .cons (.vector (.uint .byte)) .nil

/-- The members of an item behind its header, when they can be read. -/
def readMembers {α : Type} (members : Members α) (data : Memory) (size : Nat) : Option α :=
  let (fields, ctx) := members.deserialize ⟨data, size⟩ ⟨⟨8, []⟩, true⟩
  if ctx.reader.offset ≤ size ∧ ctx.mOk then some fields else none

/-- `RsGxsTransSerializer::deserialise`. The other three items of the service have no part in the
cleanup, whether they can be read or not. -/
def deserialise (msg : List UInt8) : Option RsItem :=
  let data : Memory := fun index => msg.getD index 0
  let rstype := (getRsItemId data).1
  if getRsItemService rstype ≠ 0x0230 then none
  else
    match getRsItemSubType rstype with
    | 0x01 => (readMembers mailMembers data msg.length).map fun fields => .mail fields.1.toNat
    | 0x02 => (readMembers presignedReceiptMembers data msg.length).map fun fields =>
        .presignedReceipt fields.1.toNat
    | 0x03 => some .unknown
    | 0x04 => some .unknown
    | 0x05 => some .unknown
    | _ => none

def RsNxsMsg.item (msg : RsNxsMsg) : Option RsItem := deserialise msg.msg

/-- The messages of the data service. A message is stored under its group, and the message id is the
primary key of the table. -/
structure DataService where
  messages : OrderedMap RsGxsGroupId (List RsNxsMsg)
  filed : ∀ entry ∈ messages.toList, ∀ msg ∈ entry.2, msg.mGroupId = entry.1
  distinct : ((messages.toList.flatMap (·.2)).map (·.mMsgId)).Nodup

/-- All messages in the order in which the thread meets them. -/
def DataService.stored (store : DataService) : List RsNxsMsg :=
  store.messages.toList.flatMap (·.2)

/-! ### The thread -/

structure MsgSizeCount where
  size : BitVec 32
  count : BitVec 32
  deriving DecidableEq

/-- The local variables of the first loop. -/
structure Collected where
  totalMessageSizeAndCount : OrderedMap RsGxsId MsgSizeCount
  storedMsgs : OrderedMap RsGxsTransId (RsGxsGroupId × RsGxsMessageId)
  receivedMsgs : List RsGxsTransId

def Collected.empty : Collected := ⟨∅, ∅, []⟩

/-- `totalMessageSizeAndCount[msg->metaData->mAuthorId]` counts one more message. -/
def Collected.account (msg : RsNxsMsg) (found : Collected) : Collected :=
  let before := found.totalMessageSizeAndCount[msg.mAuthorId]?.getD ⟨0, 0⟩
  { found with
    totalMessageSizeAndCount := found.totalMessageSizeAndCount.insert msg.mAuthorId
      ⟨before.size + BitVec.ofNat 32 msg.msg.length, before.count + 1⟩ }

/-- The body of the first loop. -/
def Collected.collect (found : Collected) (msg : RsNxsMsg) : Collected :=
  let found :=
    match msg.item with
    | some (.mail mailId) =>
        { found with storedMsgs := found.storedMsgs.insert mailId (msg.mGroupId, msg.mMsgId) }
    | some (.presignedReceipt mailId) =>
        { found with receivedMsgs := found.receivedMsgs ++ [mailId] }
    | _ => found
  found.account msg

abbrev GxsMsgReq := OrderedMap RsGxsGroupId (Finset RsGxsMessageId)

/-- The body of the second loop. -/
def Collected.schedule (found : Collected) (msgsToDel : GxsMsgReq) (mailId : RsGxsTransId) :
    GxsMsgReq :=
  match found.storedMsgs[mailId]? with
  | some (groupId, msgId) =>
      msgsToDel.insert groupId (insert msgId (msgsToDel[groupId]?.getD ∅))
  | none => msgsToDel

/-- `mMsgToDel` and `total_message_size_and_count` when the thread is done. -/
def DataService.cleanup (store : DataService) : GxsMsgReq × OrderedMap RsGxsId MsgSizeCount :=
  let found := store.messages.toList.foldl
    (fun found group => group.2.foldl Collected.collect found) Collected.empty
  (found.receivedMsgs.foldl found.schedule ∅, found.totalMessageSizeAndCount)

/-- `mMsgToDel` names the message. -/
def Scheduled (msgsToDel : GxsMsgReq) (groupId : RsGxsGroupId) (msgId : RsGxsMessageId) : Prop :=
  ∃ msgIds, msgsToDel[groupId]? = some msgIds ∧ msgId ∈ msgIds

end RetroShare.GxsTrans
