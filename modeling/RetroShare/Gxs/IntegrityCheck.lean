import RetroShare.Gxs.MessageQueries
import RetroShare.Gxs.PublishKeys

/-!
# The integrity check of GXS databases

`RsGxsIntegrityCheck::check` reads all groups, drops those whose data has another hash than the one on
record, and then does the same with the messages of the groups that passed. `none` as an outcome is a
null pointer that is dereferenced.
-/

namespace RetroShare.Gxs

/-! ### The group table -/

/-- A row of `GRP_TABLE`; its data and its key set may fail to decode. -/
structure GrpRow where
  grpId : RsGxsGroupId
  data : Option (List UInt8)
  metaBin : List UInt8
  keys : Option RsTlvSecurityKeySet
  mSubscribeFlags : UInt32
  mHash : RsFileHash

structure HashedGrpMetaData extends RsGxsGrpMetaData where
  mHash : RsFileHash

/-- `RsNxsGrp`, with the metadata that it points to. -/
structure RetrievedGrp where
  grp : RsNxsGrp
  metaData : Option HashedGrpMetaData

/-- `locked_getGrpMeta`, without the cache. -/
def GrpRow.getGrpMeta (row : GrpRow) : Option HashedGrpMetaData :=
  row.keys.map fun keys =>
    { RsGxsGrpMetaData.read ⟨keys, row.mSubscribeFlags⟩ with mHash := row.mHash }

/-- `locked_getGroup`, with the metadata as `locked_retrieveGroups` adds it. -/
def GrpRow.getGroup (row : GrpRow) : Option RetrievedGrp :=
  if row.grpId = 0 then none
  else row.data.map fun data => ⟨⟨row.grpId, data, row.metaBin⟩, row.getGrpMeta⟩

structure GrpTable where
  rows : List GrpRow
  /-- `grpId TEXT PRIMARY KEY` -/
  unique : ((rows.filter (·.grpId ≠ 0)).map GrpRow.grpId).Nodup

/-- `retrieveNxsGrps` of all groups, with their metadata. -/
def GrpTable.retrieveNxsGrps (table : GrpTable) : OrderedMap RsGxsGroupId RetrievedGrp :=
  (table.rows.filterMap GrpRow.getGroup).foldl (fun grps g => grps.insert g.grp.grpId g) ∅

def GrpTable.removeGroups (table : GrpTable) (grpIds : List RsGxsGroupId) : GrpTable where
  rows := table.rows.filter (·.grpId ∉ grpIds)
  unique := table.unique.sublist ((List.filter_sublist.filter _).map _)

/-! ### Message ids -/

/-- `reqIds[grpId].insert(msgId)` -/
def addMsg (reqIds : GxsMsgReq) (entry : RsGxsGroupId × RsGxsMessageId) : GxsMsgReq :=
  reqIds.insert entry.1 (insert entry.2 ((reqIds[entry.1]?).getD ∅))

/-- The request names this message. -/
def Names (reqIds : GxsMsgReq) (entry : RsGxsGroupId × RsGxsMessageId) : Prop :=
  entry.2 ∈ (reqIds[entry.1]?).getD ∅

instance (reqIds : GxsMsgReq) : DecidablePred (Names reqIds) := by
  intro entry
  unfold Names
  infer_instance

/-- The id that the row is looked up by. -/
def MsgRow.entry (row : MsgRow) : RsGxsGroupId × RsGxsMessageId :=
  (row.metaData.mGroupId, row.metaData.mMsgId)

namespace MsgTable

/-- Also the ids of rows that do not decode. -/
def retrieveMsgIds (db : MsgTable) (grpId : RsGxsGroupId) : Finset RsGxsMessageId :=
  ((db.rows.filter fun row => row.metaData.mGroupId = grpId).map fun row =>
    row.metaData.mMsgId).toFinset

def removeMsgs (db : MsgTable) (msgIds : GxsMsgReq) : MsgTable where
  rows := db.rows.filter fun row => ¬ Names msgIds row.entry
  unique := db.unique.sublist ((List.filter_sublist.filter _).map _)

end MsgTable

/-! ### The check -/

structure GxsDatabase where
  groups : GrpTable
  msgs : MsgTable

/-- `GROUP_SUBSCRIBE_SUBSCRIBED` -/
def groupSubscribeSubscribed : UInt32 := 0x04

section Check

/- `noSuppliers`: "it has no suppliers not any visible data at friends", and synchronises by itself. -/
variable (pqihash : List UInt8 → RsFileHash) (noSuppliers : RsGxsGroupId → Bool)

/-- What the first loop collects. -/
structure GroupScan where
  grpsToDel : List RsGxsGroupId
  msgIds : GxsMsgReq
  /-- The groups for `retrieveNxsMsgs`. -/
  grps : GxsMsgReq

def GroupScan.judge (db : MsgTable) (scan : GroupScan) (grp : RsNxsGrp) (metaData : HashedGrpMetaData) :
    GroupScan :=
  if pqihash grp.grp = metaData.mHash then
    { scan with
      msgIds := scan.msgIds.insert grp.grpId (db.retrieveMsgIds grp.grpId)
      grps := scan.grps.insert grp.grpId ∅ }
  else { scan with grpsToDel := scan.grpsToDel ++ [grp.grpId] }

/-- A group that no one supplies any more may have been scheduled already. -/
def GroupScan.abandon (scan : GroupScan) (grp : RsNxsGrp) (metaData : HashedGrpMetaData) : GroupScan :=
  if metaData.mSubscribeFlags &&&
      (groupSubscribeSubscribed ||| groupSubscribeAdmin ||| groupSubscribePublish) = 0 ∧
      noSuppliers grp.grpId then
    { scan with grpsToDel := scan.grpsToDel ++ [grp.grpId] }
  else scan

/-- The body of the first loop; it never asks whether there is metadata. -/
def GroupScan.pass (db : MsgTable) (scan : GroupScan) (g : RetrievedGrp) : Option GroupScan := do
  let metaData ← g.metaData
  some ((scan.judge pqihash db g.grp metaData).abandon noSuppliers g.grp metaData)

/-- The messages that are on record but were not retrieved. -/
def missingMsgs (msgIds : GxsMsgReq) (msgs : OrderedMap RsGxsGroupId (List RetrievedMsg)) :
    List (RsGxsGroupId × RsGxsMessageId) :=
  msgIds.toList.flatMap fun (grpId, msgIdV) =>
    (msgIdV.sort.filter fun msgId =>
      ((msgs[grpId]?).getD []).all fun nxsMsg => nxsMsg.msg.msgId ≠ msgId).map fun msgId => (grpId, msgId)

/-- "message data with wrong hash or null meta data" -/
def RetrievedMsg.wrong (nxsMsg : RetrievedMsg) : Bool :=
  match nxsMsg.metaData with
  | none => true
  | some metaData => pqihash nxsMsg.msg.msg ≠ metaData.mHash

def wrongMsgs (msgs : OrderedMap RsGxsGroupId (List RetrievedMsg)) :
    List (RsGxsGroupId × RsGxsMessageId) :=
  msgs.toList.flatMap fun (_, msgV) =>
    (msgV.filter (RetrievedMsg.wrong pqihash)).map fun nxsMsg => (nxsMsg.msg.grpId, nxsMsg.msg.msgId)

structure CheckOutcome where
  db : GxsDatabase
  mDeletedGrps : List RsGxsGroupId
  mDeletedMsgs : GxsMsgReq

def GxsDatabase.check (db : GxsDatabase) : Option CheckOutcome := do
  let grp := db.groups.retrieveNxsGrps
  let scan ← (grp.toList.map Prod.snd).foldlM (GroupScan.pass pqihash noSuppliers db.msgs) ⟨[], ∅, ∅⟩
  let groups := db.groups.removeGroups scan.grpsToDel
  let msgs := db.msgs.retrieveNxsMsgs scan.grps
  let msgsToDel := (missingMsgs scan.msgIds msgs ++ wrongMsgs pqihash msgs).foldl addMsg ∅
  some ⟨⟨groups, db.msgs.removeMsgs msgsToDel⟩, scan.grpsToDel, msgsToDel⟩

end Check

end RetroShare.Gxs
