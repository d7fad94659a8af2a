import Mathlib.Data.Finset.Sort
import RetroShare.Gxs.Transactions

/-!
# Message queries

`RsGxsDataAccess` answers a request in two stages. It reads the metadata of the requested groups and
selects message ids by the options; it then fetches the messages of these ids from the data service,
where no id at all asks for the whole group.
-/

namespace RetroShare.Gxs

/-! ### The message table -/

abbrev RsFileHash := Nat

/-- A null id is 0. -/
structure RsGxsMsgMetaData where
  mGroupId : RsGxsGroupId
  mMsgId : RsGxsMessageId
  mParentId : RsGxsMessageId
  mOrigMsgId : RsGxsMessageId
  mHash : RsFileHash
  mMsgFlags : UInt32
  mMsgStatus : UInt32
  mPublishTs : Int
  deriving DecidableEq

/-- A row of `MSG_TABLE`; the data may fail to decode. -/
structure MsgRow where
  metaData : RsGxsMsgMetaData
  metaBin : List UInt8
  data : Option (List UInt8)
  deriving DecidableEq

/-- "without these, a msg is meaningless" -/
def MsgRow.Named (row : MsgRow) : Prop := row.metaData.mGroupId ≠ 0 ∧ row.metaData.mMsgId ≠ 0

instance (row : MsgRow) : Decidable row.Named := by
  unfold MsgRow.Named
  infer_instance

/-- `locked_getMsgMeta` -/
def MsgRow.getMsgMeta (row : MsgRow) : Option RsGxsMsgMetaData :=
  if row.Named then some row.metaData else none

/-- `RsNxsMsg`, with the metadata that it points to. -/
structure RetrievedMsg where
  msg : RsNxsMsg
  metaData : Option RsGxsMsgMetaData
  deriving DecidableEq

/-- `locked_getMessage`, with the metadata as well. -/
def MsgRow.getMessage (row : MsgRow) : Option RetrievedMsg :=
  if row.Named then
    row.data.map fun data =>
      ⟨⟨row.metaData.mGroupId, row.metaData.mMsgId, data, row.metaBin⟩, row.getMsgMeta⟩
  else none

/-- The rows in the order in which the database returns them. -/
structure MsgTable where
  rows : List MsgRow
  /-- `msgId TEXT PRIMARY KEY` -/
  unique : ((rows.filter MsgRow.Named).map fun row => row.metaData.mMsgId).Nodup

/-- An empty set of ids stands for all messages of the group. -/
abbrev GxsMsgReq := OrderedMap RsGxsGroupId (Finset RsGxsMessageId)

namespace MsgTable

variable (db : MsgTable)

/-- The rows that the queries for a group return, one after the other. -/
def query (grpId : RsGxsGroupId) (msgIdV : Finset RsGxsMessageId) : List MsgRow :=
  if msgIdV = ∅ then db.rows.filter fun row => row.metaData.mGroupId = grpId
  else msgIdV.sort.flatMap fun msgId =>
    db.rows.filter fun row => row.metaData.mGroupId = grpId ∧ row.metaData.mMsgId = msgId

def retrieveNxsMsgs (reqIds : GxsMsgReq) : OrderedMap RsGxsGroupId (List RetrievedMsg) :=
  reqIds.map fun grpId msgIdV => (db.query grpId msgIdV).filterMap MsgRow.getMessage

def retrieveGxsMsgMetaData (reqIds : GxsMsgReq) :
    OrderedMap RsGxsGroupId (List RsGxsMsgMetaData) :=
  reqIds.map fun grpId msgIdV => (db.query grpId msgIdV).filterMap MsgRow.getMsgMeta

end MsgTable

/-! ### Options -/

/-- `RS_TOKREQOPT_MSG_ORIGMSG` -/
def tokReqOptMsgOrigMsg : UInt32 := 0x0002

/-- `RS_TOKREQOPT_MSG_LATEST` -/
def tokReqOptMsgLatest : UInt32 := 0x0004

/-- `RS_TOKREQOPT_MSG_THREAD` -/
def tokReqOptMsgThread : UInt32 := 0x0010

structure RsTokReqOptions where
  mOptions : UInt32
  mStatusFilter : UInt32
  mStatusMask : UInt32
  mMsgFlagMask : UInt32
  mMsgFlagFilter : UInt32
  deriving DecidableEq

/-- "Exact Flags match required."; without a mask there is no comparison. -/
def flagsMatch (mask filter flags : UInt32) : Bool :=
  if mask ≠ 0 then mask &&& filter = mask &&& flags else true

def checkMsgFilter (opts : RsTokReqOptions) (metaData : RsGxsMsgMetaData) : Bool :=
  let statusMatch := flagsMatch opts.mStatusMask opts.mStatusFilter metaData.mMsgStatus
  let flagMatch := flagsMatch opts.mMsgFlagMask opts.mMsgFlagFilter metaData.mMsgFlags
  statusMatch && flagMatch

/-! ### Selection -/

/-- What is selected of one group: the ids, and the metadata that the filter looks at. -/
structure MsgSelection where
  msgIds : Finset RsGxsMessageId
  metaFilter : OrderedMap RsGxsMessageId RsGxsMsgMetaData

/-- For each original message id the latest message so far, with its time. -/
structure LatestSearch where
  origMsgTs : OrderedMap RsGxsMessageId (RsGxsMessageId × Int)
  metaFilter : OrderedMap RsGxsMessageId RsGxsMsgMetaData

/-- "add as latest. (overwriting if necessary)" -/
def LatestSearch.add (search : LatestSearch) (msgMeta : RsGxsMsgMetaData) : LatestSearch where
  origMsgTs := search.origMsgTs.insert msgMeta.mOrigMsgId (msgMeta.mMsgId, msgMeta.mPublishTs)
  metaFilter := search.metaFilter.insertIfNew msgMeta.mMsgId msgMeta

def LatestSearch.consider (search : LatestSearch) (msgMeta : RsGxsMsgMetaData) : LatestSearch :=
  match search.origMsgTs[msgMeta.mOrigMsgId]? with
  | none => search.add msgMeta
  | some latest => if latest.2 < msgMeta.mPublishTs then search.add msgMeta else search

/-- "if we are grabbing thread Head... then parentId == empty." -/
def LatestSearch.pass (onlyThreadHeadMsgs : Bool) (search : LatestSearch)
    (msgMeta : RsGxsMsgMetaData) : LatestSearch :=
  if onlyThreadHeadMsgs ∧ msgMeta.mParentId ≠ 0 then search else search.consider msgMeta

/-- "Add the discovered Latest Msgs." -/
def LatestSearch.found (search : LatestSearch) : MsgSelection where
  msgIds := (search.origMsgTs.toList.map fun entry => entry.2.1).toFinset
  metaFilter := search.metaFilter

def MsgSelection.add (selection : MsgSelection) (msgMeta : RsGxsMsgMetaData) : MsgSelection where
  msgIds := insert msgMeta.mMsgId selection.msgIds
  metaFilter := selection.metaFilter.insertIfNew msgMeta.mMsgId msgMeta

/-- "ALL OTHER CASES." -/
def MsgSelection.pass (onlyThreadHeadMsgs onlyOrigMsgs : Bool) (selection : MsgSelection)
    (msgMeta : RsGxsMsgMetaData) : MsgSelection :=
  if onlyThreadHeadMsgs ∧ msgMeta.mParentId ≠ 0 then selection
  else if onlyOrigMsgs ∧ msgMeta.mMsgId ≠ msgMeta.mOrigMsgId then selection
  else selection.add msgMeta

/-- The loop of `getMsgList` for one group. -/
def selectMsgs (opts : RsTokReqOptions) (metaV : List RsGxsMsgMetaData) : MsgSelection :=
  -- "Can only choose one of these two."
  let onlyOrigMsgs : Bool := opts.mOptions &&& tokReqOptMsgOrigMsg ≠ 0
  let onlyLatestMsgs : Bool := !onlyOrigMsgs && opts.mOptions &&& tokReqOptMsgLatest ≠ 0
  let onlyThreadHeadMsgs : Bool := opts.mOptions &&& tokReqOptMsgThread ≠ 0
  if onlyLatestMsgs then
    (metaV.foldl (LatestSearch.pass onlyThreadHeadMsgs) ⟨∅, ∅⟩).found
  else metaV.foldl (MsgSelection.pass onlyThreadHeadMsgs onlyOrigMsgs) ⟨∅, ∅⟩

/-- The ids that `filterMsgList` leaves. -/
def MsgSelection.filterMsgList (opts : RsTokReqOptions) (selection : MsgSelection) :
    Finset RsGxsMessageId :=
  selection.msgIds.filter fun msgId => (selection.metaFilter[msgId]?).any (checkMsgFilter opts)

/-- A group without a selected message has no entry; one whose messages are all filtered out has. -/
def MsgTable.getMsgList (db : MsgTable) (msgIds : GxsMsgReq) (opts : RsTokReqOptions) : GxsMsgReq :=
  (db.retrieveGxsMsgMetaData msgIds).filterMap fun _ metaV =>
    let selection := selectMsgs opts metaV
    if selection.msgIds = ∅ then none else some (selection.filterMsgList opts)

def MsgTable.getMsgData (db : MsgTable) (msgIds : GxsMsgReq) (opts : RsTokReqOptions) :
    OrderedMap RsGxsGroupId (List RetrievedMsg) :=
  db.retrieveNxsMsgs (db.getMsgList msgIds opts)

def MsgTable.getMsgSummary (db : MsgTable) (msgIds : GxsMsgReq) (opts : RsTokReqOptions) :
    OrderedMap RsGxsGroupId (List RsGxsMsgMetaData) :=
  db.retrieveGxsMsgMetaData (db.getMsgList msgIds opts)

end RetroShare.Gxs
