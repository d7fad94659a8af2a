import RetroShare.Gxs.IntegrityCheck
import RetroShare.Gxs.Proof.MessageQueries

/-!
# What the integrity check leaves

The check is compared with two conditions on rows: a row is intact if it decodes and its data has the
hash on record. Groups that are not listed, or have no metadata, and messages of groups that are dropped
are beyond its reach.
-/

namespace RetroShare.Gxs

variable (pqihash : List UInt8 → RsFileHash) (noSuppliers : RsGxsGroupId → Bool)

/-! ### Intact rows -/

/-- The data of the group has the hash on record. -/
def RetrievedGrp.Intact (g : RetrievedGrp) : Prop :=
  ∃ metaData, g.metaData = some metaData ∧ pqihash g.grp.grp = metaData.mHash

/-- No one here uses the group, and no one supplies it. -/
def RetrievedGrp.Abandoned (g : RetrievedGrp) : Prop :=
  ∃ metaData, g.metaData = some metaData ∧ metaData.mSubscribeFlags &&&
    (groupSubscribeSubscribed ||| groupSubscribeAdmin ||| groupSubscribePublish) = 0 ∧
      noSuppliers g.grp.grpId

def GrpRow.Intact (row : GrpRow) : Prop := ∃ g, row.getGroup = some g ∧ g.Intact pqihash

def GrpRow.Abandoned (row : GrpRow) : Prop := ∃ g, row.getGroup = some g ∧ g.Abandoned noSuppliers

/-- The row decodes, and its key set does. -/
def GrpRow.Readable (row : GrpRow) : Prop := ∃ g, row.getGroup = some g ∧ g.metaData.isSome

def MsgRow.Intact (row : MsgRow) : Prop :=
  ∃ nxsMsg, row.getMessage = some nxsMsg ∧ nxsMsg.wrong pqihash = false

theorem grpId_of_getGroup {row : GrpRow} {g : RetrievedGrp} (hgroup : row.getGroup = some g) :
    row.grpId ≠ 0 ∧ g.grp.grpId = row.grpId := by
  rw [GrpRow.getGroup] at hgroup
  split at hgroup
  · cases hgroup
  · next hid =>
      obtain ⟨data, -, rfl⟩ := Option.map_eq_some_iff.mp hgroup
      exact ⟨hid, rfl⟩

theorem entry_of_getMessage {row : MsgRow} {nxsMsg : RetrievedMsg}
    (hmsg : row.getMessage = some nxsMsg) : (nxsMsg.msg.grpId, nxsMsg.msg.msgId) = row.entry := by
  rw [MsgRow.getMessage, if_pos (named_of_getMessage hmsg)] at hmsg
  obtain ⟨data, -, rfl⟩ := Option.map_eq_some_iff.mp hmsg
  rfl

namespace GrpTable

variable {table : GrpTable} {row other : GrpRow} {g : RetrievedGrp}

theorem row_unique (hrow : row ∈ table.rows) (hother : other ∈ table.rows) (hid : row.grpId ≠ 0)
    (hsame : other.grpId = row.grpId) : other = row := by
  refine List.inj_on_of_nodup_map table.unique ?_ ?_ hsame
  · exact List.mem_filter.mpr ⟨hother, by simpa [hsame] using hid⟩
  · exact List.mem_filter.mpr ⟨hrow, by simpa using hid⟩

theorem mem_foldl_insert (groups : List RetrievedGrp) (g : RetrievedGrp) :
    (groups.map (·.grp.grpId)).Nodup →
      (g ∈ (groups.foldl (fun grps g => grps.insert g.grp.grpId g)
        (∅ : OrderedMap RsGxsGroupId RetrievedGrp)).toList.map Prod.snd ↔ g ∈ groups) := by
  intro hnodup
  have hlookup : ∀ grpId : RsGxsGroupId, ∀ g : RetrievedGrp,
      (groups.foldl (fun grps g => grps.insert g.grp.grpId g)
        (∅ : OrderedMap RsGxsGroupId RetrievedGrp))[grpId]? = some g ↔
          g ∈ groups ∧ g.grp.grpId = grpId := by
    induction groups using List.reverseRecOn with
    | nil => simp
    | append_singleton groups last ih =>
        intro grpId g
        rw [List.map_append, List.nodup_append] at hnodup
        rw [List.foldl_append, List.foldl_cons, List.foldl_nil, OrderedMap.lookup_insert]
        by_cases heq : last.grp.grpId = grpId
        · rw [if_pos heq, Option.some.injEq, List.mem_append, List.mem_singleton]
          constructor
          · rintro rfl
            exact ⟨.inr rfl, heq⟩
          · rintro ⟨hmem | rfl, hid⟩
            · exact absurd (hid.trans heq.symm)
                (hnodup.2.2 _ (List.mem_map_of_mem hmem) _ (by simp))
            · rfl
        · rw [if_neg heq, ih hnodup.1, List.mem_append, List.mem_singleton]
          refine and_congr_left fun hid => ⟨.inl, fun hmem => hmem.resolve_right ?_⟩
          rintro rfl
          exact heq hid
  rw [List.mem_map]
  constructor
  · rintro ⟨⟨grpId, found⟩, hmem, rfl⟩
    exact ((hlookup grpId found).mp ((OrderedMap.mem_toList _).mp hmem)).1
  · intro hmem
    exact ⟨(g.grp.grpId, g), (OrderedMap.mem_toList _).mpr ((hlookup _ _).mpr ⟨hmem, rfl⟩), rfl⟩

/-- The groups that the first loop goes over. -/
theorem mem_retrieveNxsGrps :
    g ∈ table.retrieveNxsGrps.toList.map Prod.snd ↔ ∃ row ∈ table.rows, row.getGroup = some g := by
  have hids : ∀ rows : List GrpRow, List.Sublist
      ((rows.filterMap GrpRow.getGroup).map (·.grp.grpId))
      ((rows.filter (·.grpId ≠ 0)).map GrpRow.grpId) := by
    intro rows
    induction rows with
    | nil => exact List.Sublist.slnil
    | cons row rows ih =>
        cases hgroup : row.getGroup with
        | none =>
            rw [List.filterMap_cons_none hgroup]
            exact ih.trans (((List.sublist_cons_self row rows).filter _).map _)
        | some g =>
            obtain ⟨hid, hsame⟩ := grpId_of_getGroup hgroup
            rw [List.filterMap_cons_some hgroup, List.filter_cons_of_pos (by simpa using hid),
              List.map_cons, List.map_cons, hsame]
            exact ih.cons_cons _
  rw [retrieveNxsGrps, mem_foldl_insert _ _ (table.unique.sublist (hids table.rows)),
    List.mem_filterMap]

end GrpTable

/-! ### The first loop -/

section Scan

variable {pqihash noSuppliers} {db : MsgTable} {groups : List RetrievedGrp} {scan : GroupScan}

variable (pqihash noSuppliers db) in
/-- What the loop has collected after these groups. -/
structure Scanned (groups : List RetrievedGrp) (scan : GroupScan) : Prop where
  grpsToDel : ∀ grpId, grpId ∈ scan.grpsToDel ↔
    ∃ g ∈ groups, g.grp.grpId = grpId ∧ (¬ g.Intact pqihash ∨ g.Abandoned noSuppliers)
  msgIds : ∀ (grpId : RsGxsGroupId) (msgIdV : Finset RsGxsMessageId),
    scan.msgIds[grpId]? = some msgIdV ↔
      (∃ g ∈ groups, g.grp.grpId = grpId ∧ g.Intact pqihash) ∧ db.retrieveMsgIds grpId = msgIdV
  grps : ∀ (grpId : RsGxsGroupId) (msgIdV : Finset RsGxsMessageId),
    scan.grps[grpId]? = some msgIdV ↔
      (∃ g ∈ groups, g.grp.grpId = grpId ∧ g.Intact pqihash) ∧ ∅ = msgIdV

/-- An entry for each group of a kind, with one more group. -/
theorem lookup_extend {Value : Type} {values : RsGxsGroupId → Value}
    {entries : OrderedMap RsGxsGroupId Value} {Kind : RetrievedGrp → Prop}
    (hentries : ∀ (grpId : RsGxsGroupId) (value : Value), entries[grpId]? = some value ↔
      (∃ g ∈ groups, g.grp.grpId = grpId ∧ Kind g) ∧ values grpId = value)
    (last : RetrievedGrp) {condition : Prop} [Decidable condition] (hkind : Kind last ↔ condition)
    (grpId : RsGxsGroupId) (value : Value) :
    (if condition then entries.insert last.grp.grpId (values last.grp.grpId)
      else entries)[grpId]? = some value ↔
        (∃ g ∈ groups ++ [last], g.grp.grpId = grpId ∧ Kind g) ∧ values grpId = value := by
  have hsplit : (∃ g ∈ groups ++ [last], g.grp.grpId = grpId ∧ Kind g) ↔
      (∃ g ∈ groups, g.grp.grpId = grpId ∧ Kind g) ∨ (last.grp.grpId = grpId ∧ condition) := by
    simp [or_and_right, exists_or, hkind]
  rw [hsplit]
  by_cases hcondition : condition
  · rw [if_pos hcondition, OrderedMap.lookup_insert]
    by_cases heq : last.grp.grpId = grpId
    · rw [if_pos heq, heq, Option.some.injEq]
      simp [hcondition]
    · rw [if_neg heq, hentries]
      simp [heq]
  · rw [if_neg hcondition, hentries]
    simp [hcondition]

theorem Scanned.pass {last : RetrievedGrp} {metaData : HashedGrpMetaData}
    (hscanned : Scanned pqihash noSuppliers db groups scan) (hmeta : last.metaData = some metaData) :
    Scanned pqihash noSuppliers db (groups ++ [last])
      ((scan.judge pqihash db last.grp metaData).abandon noSuppliers last.grp metaData) := by
  have hintact : last.Intact pqihash ↔ pqihash last.grp.grp = metaData.mHash := by
    simp [RetrievedGrp.Intact, hmeta]
  have habandoned : last.Abandoned noSuppliers ↔ metaData.mSubscribeFlags &&&
      (groupSubscribeSubscribed ||| groupSubscribeAdmin ||| groupSubscribePublish) = 0 ∧
        noSuppliers last.grp.grpId := by
    simp [RetrievedGrp.Abandoned, hmeta]
  have hdel : ((scan.judge pqihash db last.grp metaData).abandon noSuppliers last.grp
      metaData).grpsToDel = scan.grpsToDel ++
        (if pqihash last.grp.grp = metaData.mHash then [] else [last.grp.grpId]) ++
          (if metaData.mSubscribeFlags &&& (groupSubscribeSubscribed ||| groupSubscribeAdmin |||
            groupSubscribePublish) = 0 ∧ noSuppliers last.grp.grpId then [last.grp.grpId] else []) := by
    rw [GroupScan.judge, GroupScan.abandon]
    split <;> split <;> simp
  have hids : ((scan.judge pqihash db last.grp metaData).abandon noSuppliers last.grp
      metaData).msgIds = if pqihash last.grp.grp = metaData.mHash then
        scan.msgIds.insert last.grp.grpId (db.retrieveMsgIds last.grp.grpId) else scan.msgIds := by
    rw [GroupScan.judge, GroupScan.abandon]
    split <;> split <;> rfl
  have hgrps : ((scan.judge pqihash db last.grp metaData).abandon noSuppliers last.grp
      metaData).grps = if pqihash last.grp.grp = metaData.mHash then
        scan.grps.insert last.grp.grpId ∅ else scan.grps := by
    rw [GroupScan.judge, GroupScan.abandon]
    split <;> split <;> rfl
  constructor
  · intro grpId
    have hsplit : (∃ g ∈ groups ++ [last], g.grp.grpId = grpId ∧
        (¬ g.Intact pqihash ∨ g.Abandoned noSuppliers)) ↔
          grpId ∈ scan.grpsToDel ∨ (last.grp.grpId = grpId ∧
            (¬ last.Intact pqihash ∨ last.Abandoned noSuppliers)) := by
      rw [hscanned.grpsToDel]
      simp [or_and_right, exists_or]
    rw [hsplit, hdel, hintact, habandoned, List.mem_append, List.mem_append, or_assoc,
      @eq_comm _ _ grpId]
    refine or_congr_right ?_
    split
    · next hsame =>
        split
        · next hunused => simp [hunused]
        · next hunused => simp [hsame, hunused]
    · next hdiffers =>
        split
        · next => simp [hdiffers]
        · next => simp [hdiffers]
  · rw [hids]
    exact lookup_extend hscanned.msgIds last hintact
  · rw [hgrps]
    exact @lookup_extend groups _ (fun _ => ∅) _ _ hscanned.grps last _ _ hintact

variable (pqihash noSuppliers db) in
theorem foldlM_pass_spec (groups : List RetrievedGrp) (hmeta : ∀ g ∈ groups, g.metaData.isSome) :
    ∃ scan, groups.foldlM (GroupScan.pass pqihash noSuppliers db) ⟨[], ∅, ∅⟩ = some scan ∧
      Scanned pqihash noSuppliers db groups scan := by
  induction groups using List.reverseRecOn with
  | nil => exact ⟨_, rfl, by simp, by simp, by simp⟩
  | append_singleton groups last ih =>
      obtain ⟨scan, hloop, hscanned⟩ := ih fun g hg => hmeta g (List.mem_append_left _ hg)
      obtain ⟨metaData, hlast⟩ := Option.isSome_iff_exists.mp (hmeta last (by simp))
      refine ⟨_, ?_, hscanned.pass hlast⟩
      rw [List.foldlM_append, hloop, Option.bind_eq_bind, Option.bind_some, List.foldlM_cons,
        GroupScan.pass, hlast]
      rfl

/-- Without metadata the loop goes through a null pointer. -/
theorem metaData_of_foldlM {groups : List RetrievedGrp} : ∀ {start scan : GroupScan},
    groups.foldlM (GroupScan.pass pqihash noSuppliers db) start = some scan →
      ∀ g ∈ groups, g.metaData.isSome := by
  induction groups with
  | nil => exact fun _ => nofun
  | cons first rest ih =>
      intro start scan hloop g hg
      rw [List.foldlM_cons] at hloop
      obtain ⟨next, hpass, hrest⟩ := Option.bind_eq_some_iff.mp hloop
      rcases List.mem_cons.mp hg with rfl | hg
      · rw [GroupScan.pass] at hpass
        obtain ⟨metaData, hmeta, -⟩ := Option.bind_eq_some_iff.mp hpass
        exact Option.isSome_of_eq_some hmeta
      · exact ih hrest g hg

end Scan

/-! ### The messages -/

theorem names_addMsg (reqIds : GxsMsgReq) (entry other : RsGxsGroupId × RsGxsMessageId) :
    Names (addMsg reqIds entry) other ↔ other = entry ∨ Names reqIds other := by
  rw [Names, addMsg, OrderedMap.lookup_insert]
  by_cases heq : entry.1 = other.1
  · rw [if_pos heq, Option.getD_some, Finset.mem_insert, Names, heq, Prod.ext_iff]
    simp [heq]
  · have hne : other ≠ entry := by
      rintro rfl
      exact heq rfl
    rw [if_neg heq, Names]
    simp [hne]

theorem names_foldl_addMsg (entries : List (RsGxsGroupId × RsGxsMessageId))
    (entry : RsGxsGroupId × RsGxsMessageId) :
    ∀ reqIds : GxsMsgReq, Names (entries.foldl addMsg reqIds) entry ↔
      entry ∈ entries ∨ Names reqIds entry := by
  induction entries with
  | nil => simp
  | cons first rest ih =>
      intro reqIds
      rw [List.foldl_cons, ih, names_addMsg, List.mem_cons]
      tauto

section Messages

variable {msgs : OrderedMap RsGxsGroupId (List RetrievedMsg)} {entry : RsGxsGroupId × RsGxsMessageId}

theorem mem_missingMsgs {msgIds : GxsMsgReq} : entry ∈ missingMsgs msgIds msgs ↔
    ∃ msgIdV, msgIds[entry.1]? = some msgIdV ∧ entry.2 ∈ msgIdV ∧
      ∀ nxsMsg ∈ (msgs[entry.1]?).getD [], nxsMsg.msg.msgId ≠ entry.2 := by
  rw [missingMsgs, List.mem_flatMap]
  constructor
  · rintro ⟨⟨grpId, msgIdV⟩, hentry, hmem⟩
    obtain ⟨msgId, hmsgId, rfl⟩ := List.mem_map.mp hmem
    obtain ⟨hmsgId, hall⟩ := List.mem_filter.mp hmsgId
    exact ⟨msgIdV, (OrderedMap.mem_toList _).mp hentry, (Finset.mem_sort _).mp hmsgId,
      by simpa using hall⟩
  · rintro ⟨msgIdV, hentry, hmsgId, hall⟩
    refine ⟨(entry.1, msgIdV), (OrderedMap.mem_toList _).mpr hentry,
      List.mem_map.mpr ⟨entry.2, List.mem_filter.mpr ⟨(Finset.mem_sort _).mpr hmsgId, ?_⟩, rfl⟩⟩
    simpa using hall

theorem mem_wrongMsgs : entry ∈ wrongMsgs pqihash msgs ↔
    ∃ grpId : RsGxsGroupId, ∃ nxsMsg ∈ (msgs[grpId]?).getD [], nxsMsg.wrong pqihash ∧
      (nxsMsg.msg.grpId, nxsMsg.msg.msgId) = entry := by
  rw [wrongMsgs, List.mem_flatMap]
  constructor
  · rintro ⟨⟨grpId, msgV⟩, hentry, hmem⟩
    obtain ⟨nxsMsg, hmsg, rfl⟩ := List.mem_map.mp hmem
    obtain ⟨hmsg, hwrong⟩ := List.mem_filter.mp hmsg
    refine ⟨grpId, nxsMsg, ?_, hwrong, rfl⟩
    rwa [(OrderedMap.mem_toList _).mp hentry]
  · rintro ⟨grpId, nxsMsg, hmsg, hwrong, rfl⟩
    cases hentry : msgs[grpId]? with
    | none => simp [hentry] at hmsg
    | some msgV =>
        rw [hentry] at hmsg
        exact ⟨(grpId, msgV), (OrderedMap.mem_toList _).mpr hentry,
          List.mem_map.mpr ⟨nxsMsg, List.mem_filter.mpr ⟨hmsg, hwrong⟩, rfl⟩⟩

end Messages

/-! ### The outcome -/

namespace GxsDatabase

section Outcome

variable {pqihash noSuppliers} {db : GxsDatabase} {scan : GroupScan} {row : MsgRow}

/-- The group is intact, so that its messages are looked at. -/
def Passed (pqihash : List UInt8 → RsFileHash) (db : GxsDatabase) (grpId : RsGxsGroupId) : Prop :=
  ∃ grpRow ∈ db.groups.rows, grpRow.grpId = grpId ∧ grpRow.Intact pqihash

/-- The groups that are listed. -/
def listed (db : GxsDatabase) : List RetrievedGrp :=
  db.groups.retrieveNxsGrps.toList.map Prod.snd

theorem exists_listed_iff {grpId : RsGxsGroupId} {Kind : RetrievedGrp → Prop} :
    (∃ g ∈ db.listed, g.grp.grpId = grpId ∧ Kind g) ↔
      ∃ grpRow ∈ db.groups.rows, grpRow.grpId = grpId ∧ ∃ g, grpRow.getGroup = some g ∧ Kind g := by
  constructor
  · rintro ⟨g, hmem, rfl, hkind⟩
    obtain ⟨grpRow, hrow, hgroup⟩ := GrpTable.mem_retrieveNxsGrps.mp hmem
    exact ⟨grpRow, hrow, (grpId_of_getGroup hgroup).2.symm, g, hgroup, hkind⟩
  · rintro ⟨grpRow, hrow, rfl, g, hgroup, hkind⟩
    exact ⟨g, GrpTable.mem_retrieveNxsGrps.mpr ⟨grpRow, hrow, hgroup⟩, (grpId_of_getGroup hgroup).2,
      hkind⟩

theorem ne_zero_of_passed {grpId : RsGxsGroupId} (hpassed : db.Passed pqihash grpId) : grpId ≠ 0 := by
  obtain ⟨grpRow, -, rfl, g, hgroup, -⟩ := hpassed
  exact (grpId_of_getGroup hgroup).1

/-- The messages of the groups that passed. -/
theorem mem_retrieved (hscanned : Scanned pqihash noSuppliers db.msgs db.listed scan)
    (grpId : RsGxsGroupId) (nxsMsg : RetrievedMsg) :
    nxsMsg ∈ ((db.msgs.retrieveNxsMsgs scan.grps)[grpId]?).getD [] ↔
      db.Passed pqihash grpId ∧
        ∃ row ∈ db.msgs.rows, row.metaData.mGroupId = grpId ∧ row.getMessage = some nxsMsg := by
  have hgrps : ∀ msgIdV, scan.grps[grpId]? = some msgIdV ↔ db.Passed pqihash grpId ∧ ∅ = msgIdV :=
    fun msgIdV => (hscanned.grps grpId msgIdV).trans (and_congr_left fun _ => exists_listed_iff)
  rw [MsgTable.retrieveNxsMsgs, Std.ExtTreeMap.getElem?_map]
  cases hlookup : scan.grps[grpId]? with
  | none =>
      have hfailed : ¬ db.Passed pqihash grpId := fun hpassed => by
        rw [(hgrps ∅).mpr ⟨hpassed, rfl⟩] at hlookup
        cases hlookup
      simp [hfailed]
  | some msgIdV =>
      obtain ⟨hpassed, rfl⟩ := (hgrps msgIdV).mp hlookup
      simp [hpassed, MsgTable.mem_query, and_assoc]

theorem mem_retrieveMsgIds {grpId : RsGxsGroupId} {msgId : RsGxsMessageId} :
    msgId ∈ db.msgs.retrieveMsgIds grpId ↔ ∃ row ∈ db.msgs.rows, row.entry = (grpId, msgId) := by
  simp [MsgTable.retrieveMsgIds, MsgRow.entry, and_assoc]

/-- Of the groups that passed, the messages are removed that are not intact. -/
theorem names_msgsToDel_iff (hscanned : Scanned pqihash noSuppliers db.msgs db.listed scan)
    (hrow : row ∈ db.msgs.rows) :
    Names ((missingMsgs scan.msgIds (db.msgs.retrieveNxsMsgs scan.grps) ++
        wrongMsgs pqihash (db.msgs.retrieveNxsMsgs scan.grps)).foldl addMsg ∅) row.entry ↔
      db.Passed pqihash row.metaData.mGroupId ∧ ¬ row.Intact pqihash := by
  have hnone : ¬ Names ∅ row.entry := by simp [Names]
  rw [names_foldl_addMsg, or_iff_left hnone, List.mem_append, mem_missingMsgs, mem_wrongMsgs]
  constructor
  · rintro (⟨msgIdV, hids, -, hmissing⟩ | ⟨grpId, nxsMsg, hmsg, hwrong, hentry⟩)
    · obtain ⟨hlisted, -⟩ := (hscanned.msgIds _ _).mp hids
      have hpassed := exists_listed_iff.mp hlisted
      refine ⟨hpassed, ?_⟩
      rintro ⟨nxsMsg, hmsg, -⟩
      refine hmissing nxsMsg ((mem_retrieved hscanned _ _).mpr ⟨hpassed, row, hrow, rfl, hmsg⟩) ?_
      exact congrArg Prod.snd (entry_of_getMessage hmsg)
    · obtain ⟨hpassed, other, hother, rfl, hretrieved⟩ := (mem_retrieved hscanned _ _).mp hmsg
      have hsame : other.entry = row.entry := (entry_of_getMessage hretrieved).symm.trans hentry
      have hgroup : other.metaData.mGroupId = row.metaData.mGroupId := congrArg Prod.fst hsame
      refine ⟨hgroup ▸ hpassed, ?_⟩
      rintro ⟨nxsMsg', hmsg', hright⟩
      obtain rfl := MsgTable.row_unique hother (named_of_getMessage hretrieved) hrow
        (named_of_getMessage hmsg') (congrArg Prod.snd hsame)
      obtain rfl := Option.some.inj (hretrieved.symm.trans hmsg')
      rw [hright] at hwrong
      cases hwrong
  · rintro ⟨hpassed, hdamaged⟩
    cases hmsg : row.getMessage with
    | some nxsMsg =>
        refine .inr ⟨row.metaData.mGroupId, nxsMsg,
          (mem_retrieved hscanned _ _).mpr ⟨hpassed, row, hrow, rfl, hmsg⟩, ?_,
          entry_of_getMessage hmsg⟩
        by_contra hright
        exact hdamaged ⟨nxsMsg, hmsg, by simpa using hright⟩
    | none =>
        refine .inl ⟨_, (hscanned.msgIds _ _).mpr ⟨exists_listed_iff.mpr hpassed, rfl⟩,
          mem_retrieveMsgIds.mpr ⟨row, hrow, rfl⟩, fun nxsMsg hretrieved hsame => ?_⟩
        obtain ⟨-, other, hother, hgroup, hmsg'⟩ := (mem_retrieved hscanned _ _).mp hretrieved
        have hid : other.metaData.mMsgId = row.metaData.mMsgId :=
          (congrArg Prod.snd (entry_of_getMessage hmsg')).symm.trans hsame
        have hnamed := named_of_getMessage hmsg'
        have hnamed' : row.Named :=
          ⟨fun hnull => hnamed.1 (hgroup.trans hnull), fun hnull => hnamed.2 (hid.trans hnull)⟩
        obtain rfl := MsgTable.row_unique hother hnamed hrow hnamed' hid
        rw [hmsg] at hmsg'
        cases hmsg'

variable (pqihash noSuppliers) in
/-- The rows that stay when every listed group has metadata. -/
theorem check_spec (hmeta : ∀ g ∈ db.listed, g.metaData.isSome) :
    ∃ out, db.check pqihash noSuppliers = some out ∧
      (∀ grpRow, grpRow ∈ out.db.groups.rows ↔ grpRow ∈ db.groups.rows ∧
        ¬ ∃ g, grpRow.getGroup = some g ∧ (¬ g.Intact pqihash ∨ g.Abandoned noSuppliers)) ∧
      ∀ row, row ∈ out.db.msgs.rows ↔ row ∈ db.msgs.rows ∧
        ¬ (db.Passed pqihash row.metaData.mGroupId ∧ ¬ row.Intact pqihash) := by
  obtain ⟨scan, hloop, hscanned⟩ := foldlM_pass_spec pqihash noSuppliers db.msgs _ hmeta
  rw [listed] at hloop
  refine ⟨_, by rw [check]; exact congrArg (Option.bind · _) hloop, fun grpRow => ?_, fun row => ?_⟩
  · change grpRow ∈ db.groups.rows.filter _ ↔ _
    rw [List.mem_filter, decide_eq_true_eq, hscanned.grpsToDel, exists_listed_iff]
    refine and_congr_right fun hrow => not_congr ?_
    constructor
    · rintro ⟨other, hother, hsame, g, hgroup, hkind⟩
      obtain rfl := GrpTable.row_unique hrow hother
        (hsame ▸ (grpId_of_getGroup hgroup).1) hsame
      exact ⟨g, hgroup, hkind⟩
    · rintro ⟨g, hgroup, hkind⟩
      exact ⟨grpRow, hrow, rfl, g, hgroup, hkind⟩
  · change row ∈ db.msgs.rows.filter _ ↔ _
    rw [List.mem_filter, decide_eq_true_eq]
    exact and_congr_right fun hrow => not_congr (names_msgsToDel_iff hscanned hrow)

theorem metaData_of_check {out : CheckOutcome}
    (hcheck : db.check pqihash noSuppliers = some out) : ∀ g ∈ db.listed, g.metaData.isSome := by
  rw [check] at hcheck
  obtain ⟨scan, hloop, -⟩ := Option.bind_eq_some_iff.mp hcheck
  exact metaData_of_foldlM hloop

end Outcome

/-- What the check is to leave: intact groups, and intact messages where it saw the group; only what is
damaged is gone, and the groups that no one uses or supplies. -/
structure Cleaned (db : GxsDatabase) (out : CheckOutcome) : Prop where
  groups : ∀ grpRow ∈ out.db.groups.rows, grpRow.Intact pqihash
  msgs : ∀ row ∈ out.db.msgs.rows,
    (∃ grpRow ∈ db.groups.rows, grpRow.grpId = row.metaData.mGroupId ∧ grpRow.getGroup.isSome) →
      row.Intact pqihash
  groupsOld : ∀ grpRow ∈ out.db.groups.rows, grpRow ∈ db.groups.rows
  msgsOld : ∀ row ∈ out.db.msgs.rows, row ∈ db.msgs.rows
  groupsKept : ∀ grpRow ∈ db.groups.rows, grpRow.Intact pqihash → ¬ grpRow.Abandoned noSuppliers →
    grpRow ∈ out.db.groups.rows
  msgsKept : ∀ row ∈ db.msgs.rows, row.Intact pqihash → row ∈ out.db.msgs.rows

/-- Every group decodes, key set included, and the messages of a damaged group are intact. -/
structure Sound (db : GxsDatabase) : Prop where
  readable : ∀ grpRow ∈ db.groups.rows, grpRow.Readable
  msgs : ∀ grpRow ∈ db.groups.rows, ¬ grpRow.Intact pqihash →
    ∀ row ∈ db.msgs.rows, row.metaData.mGroupId = grpRow.grpId → row.Intact pqihash

theorem sound_of_cleaned {db : GxsDatabase} {out : CheckOutcome}
    (hcheck : db.check pqihash noSuppliers = some out)
    (hcleaned : db.Cleaned pqihash noSuppliers out) : db.Sound pqihash := by
  have hmeta := metaData_of_check hcheck
  obtain ⟨out', hcheck', hgroups, hmsgs⟩ := check_spec pqihash noSuppliers hmeta
  obtain rfl : out = out' := Option.some.inj (hcheck.symm.trans hcheck')
  have hreadable : ∀ grpRow ∈ db.groups.rows, grpRow.Readable := by
    intro grpRow hrow
    cases hgroup : grpRow.getGroup with
    | some g => exact ⟨g, hgroup, hmeta g (GrpTable.mem_retrieveNxsGrps.mpr ⟨grpRow, hrow, hgroup⟩)⟩
    | none =>
        -- a row that does not decode is not listed, and stays
        have hstays := (hgroups grpRow).mpr ⟨hrow, by simp [hgroup]⟩
        obtain ⟨g, hsome, -⟩ := hcleaned.groups grpRow hstays
        rw [hgroup] at hsome
        cases hsome
  refine ⟨hreadable, fun grpRow hrow hdamaged row hmsg hsame => ?_⟩
  obtain ⟨g, hgroup, -⟩ := hreadable grpRow hrow
  refine hcleaned.msgs row ((hmsgs row).mpr ⟨hmsg, fun hremoved => ?_⟩)
    ⟨grpRow, hrow, hsame.symm, Option.isSome_of_eq_some hgroup⟩
  obtain ⟨⟨other, hother, hid, hintact⟩, -⟩ := hremoved
  obtain rfl := GrpTable.row_unique hrow hother (grpId_of_getGroup hgroup).1 (hid.trans hsame)
  exact hdamaged hintact

theorem cleaned_of_sound {db : GxsDatabase} (hsound : db.Sound pqihash) :
    ∃ out, db.check pqihash noSuppliers = some out ∧ db.Cleaned pqihash noSuppliers out := by
  have hmeta : ∀ g ∈ db.listed, g.metaData.isSome := by
    intro g hg
    obtain ⟨grpRow, hrow, hgroup⟩ := GrpTable.mem_retrieveNxsGrps.mp hg
    obtain ⟨found, hfound, hsome⟩ := hsound.readable grpRow hrow
    rwa [Option.some.inj (hgroup.symm.trans hfound)]
  obtain ⟨out, hcheck, hgroups, hmsgs⟩ := check_spec pqihash noSuppliers hmeta
  refine ⟨out, hcheck, ?_, ?_, fun grpRow hrow => ((hgroups grpRow).mp hrow).1,
    fun row hrow => ((hmsgs row).mp hrow).1, ?_, ?_⟩
  · intro grpRow hrow
    obtain ⟨hold, hstays⟩ := (hgroups grpRow).mp hrow
    obtain ⟨g, hgroup, -⟩ := hsound.readable grpRow hold
    refine ⟨g, hgroup, ?_⟩
    by_contra hdamaged
    exact hstays ⟨g, hgroup, .inl hdamaged⟩
  · rintro row hrow ⟨grpRow, hgrp, hsame, -⟩
    obtain ⟨hold, hstays⟩ := (hmsgs row).mp hrow
    by_cases hintact : grpRow.Intact pqihash
    · by_contra hdamaged
      exact hstays ⟨⟨grpRow, hgrp, hsame, hintact⟩, hdamaged⟩
    · exact hsound.msgs grpRow hgrp hintact row hold hsame.symm
  · rintro grpRow hrow ⟨g, hgroup, hintact⟩ hused
    refine (hgroups grpRow).mpr ⟨hrow, ?_⟩
    rintro ⟨found, hfound, hremoved⟩
    obtain rfl := Option.some.inj (hgroup.symm.trans hfound)
    exact hremoved.elim (· hintact) fun habandoned => hused ⟨g, hgroup, habandoned⟩
  · exact fun row hrow hintact => (hmsgs row).mpr ⟨hrow, fun hremoved => hremoved.2 hintact⟩

/-- **The integrity check.** It ends with a clean database exactly if every group decodes, key set
included, and the messages of the damaged groups are intact. -/
theorem integrityCheck_iff (db : GxsDatabase) :
    (∃ out, db.check pqihash noSuppliers = some out ∧ db.Cleaned pqihash noSuppliers out) ↔
      db.Sound pqihash :=
  ⟨fun ⟨_, hcheck, hcleaned⟩ => sound_of_cleaned pqihash noSuppliers hcheck hcleaned,
    cleaned_of_sound pqihash noSuppliers⟩

/-- The data of the group is right, but its key set does not decode. -/
def sampleDatabase : GxsDatabase :=
  ⟨⟨[⟨1, some [42], [], none, 4, 7⟩], by decide⟩, ⟨[], by decide⟩⟩

/-- The first loop takes the hash from the missing metadata. -/
theorem integrityCheck_counterexample :
    ¬ ∀ (pqihash : List UInt8 → RsFileHash) (noSuppliers : RsGxsGroupId → Bool) (db : GxsDatabase),
      ∃ out, db.check pqihash noSuppliers = some out ∧ db.Cleaned pqihash noSuppliers out := by
  intro hall
  obtain ⟨out, hcheck, -⟩ := hall (fun _ => 7) (fun _ => false) sampleDatabase
  have hlisted : (⟨⟨1, [42], []⟩, none⟩ : RetrievedGrp) ∈ sampleDatabase.listed :=
    GrpTable.mem_retrieveNxsGrps.mpr ⟨_, List.mem_singleton_self _, rfl⟩
  exact absurd (metaData_of_check hcheck _ hlisted) (by decide)

end GxsDatabase

end RetroShare.Gxs
