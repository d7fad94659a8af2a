import RetroShare.Foundation.Latest
import RetroShare.Gxs.MessageQueries

/-!
# What message queries return

The selection loops are compared with a description of the messages that the options choose; the fetch
then returns these messages unless the status and flag masks leave none of them, in which case its empty
set of ids returns the group.
-/

namespace RetroShare.Gxs

/-! ### What the options choose -/

namespace RsTokReqOptions

abbrev OrigMsg (opts : RsTokReqOptions) : Prop := opts.mOptions &&& tokReqOptMsgOrigMsg ≠ 0

abbrev Latest (opts : RsTokReqOptions) : Prop := opts.mOptions &&& tokReqOptMsgLatest ≠ 0

abbrev Thread (opts : RsTokReqOptions) : Prop := opts.mOptions &&& tokReqOptMsgThread ≠ 0

/-- A thread head and an original, where asked. -/
def Admits (opts : RsTokReqOptions) (msgMeta : RsGxsMsgMetaData) : Prop :=
  (opts.Thread → msgMeta.mParentId = 0) ∧ (opts.OrigMsg → msgMeta.mMsgId = msgMeta.mOrigMsgId)

instance (opts : RsTokReqOptions) : DecidablePred opts.Admits := by
  intro msgMeta
  unfold Admits
  infer_instance

def candidates (opts : RsTokReqOptions) (metaV : List RsGxsMsgMetaData) : List RsGxsMsgMetaData :=
  metaV.filter opts.Admits

/-- The latest version of its original message. -/
abbrev LatestOf (metaV : List RsGxsMsgMetaData) (msgMeta : RsGxsMsgMetaData) : Prop :=
  IsLatest RsGxsMsgMetaData.mOrigMsgId RsGxsMsgMetaData.mPublishTs metaV msgMeta

def Chooses (opts : RsTokReqOptions) (metaV : List RsGxsMsgMetaData) (msgMeta : RsGxsMsgMetaData) :
    Prop :=
  msgMeta ∈ opts.candidates metaV ∧ (opts.Latest → LatestOf (opts.candidates metaV) msgMeta)

/-- With a candidate there is a choice. -/
theorem exists_chooses {opts : RsTokReqOptions} {metaV : List RsGxsMsgMetaData}
    {msgMeta : RsGxsMsgMetaData} (hmem : msgMeta ∈ opts.candidates metaV) :
    ∃ chosen, opts.Chooses metaV chosen := by
  obtain ⟨chosen, hchosen, -⟩ := exists_isLatest RsGxsMsgMetaData.mOrigMsgId
    RsGxsMsgMetaData.mPublishTs (opts.candidates metaV) msgMeta hmem
  exact ⟨chosen, hchosen.mem, fun _ => hchosen⟩

end RsTokReqOptions

open RsTokReqOptions

/-! ### The selection loops -/

section Selection

variable {metaV : List RsGxsMsgMetaData} {msgMeta : RsGxsMsgMetaData}

/-- Every entry of the filter is one of these messages, under its own id. -/
def Indexed (metaV : List RsGxsMsgMetaData)
    (metaFilter : OrderedMap RsGxsMessageId RsGxsMsgMetaData) : Prop :=
  ∀ (msgId : RsGxsMessageId) (msgMeta : RsGxsMsgMetaData), metaFilter[msgId]? = some msgMeta →
    msgMeta ∈ metaV ∧ msgMeta.mMsgId = msgId

/-- Exactly the chosen messages are selected, and the filter knows their metadata. -/
structure Selects (selection : MsgSelection) (Chosen : RsGxsMsgMetaData → Prop) : Prop where
  msgIds : ∀ msgId, msgId ∈ selection.msgIds ↔ ∃ msgMeta, Chosen msgMeta ∧ msgMeta.mMsgId = msgId
  metaFilter : ∀ msgMeta, Chosen msgMeta → selection.metaFilter[msgMeta.mMsgId]? = some msgMeta

theorem Indexed.concat {metaFilter : OrderedMap RsGxsMessageId RsGxsMsgMetaData}
    (hindexed : Indexed metaV metaFilter) (last : RsGxsMsgMetaData) :
    Indexed (metaV ++ [last]) metaFilter :=
  fun msgId msgMeta hlookup => (hindexed msgId msgMeta hlookup).imp_left (List.mem_append_left _)

section Concat

variable {metaFilter : OrderedMap RsGxsMessageId RsGxsMsgMetaData} {last : RsGxsMsgMetaData}
  (hindexed : Indexed metaV metaFilter)
  (hnodup : ((metaV ++ [last]).map RsGxsMsgMetaData.mMsgId).Nodup)

include hindexed hnodup

/-- A message is not in the filter before its turn comes. -/
theorem lookup_insertIfNew (msgId : RsGxsMessageId) :
    (metaFilter.insertIfNew last.mMsgId last)[msgId]? =
      if last.mMsgId = msgId then some last else metaFilter[msgId]? := by
  have habsent : last.mMsgId ∉ metaFilter := by
    intro hmem
    obtain ⟨other, hother⟩ := Option.isSome_iff_exists.mp
      (Std.ExtTreeMap.mem_iff_isSome_getElem?.mp hmem)
    obtain ⟨hmem, hsame⟩ := hindexed _ _ hother
    rw [List.map_append, List.nodup_append] at hnodup
    exact hnodup.2.2 _ (List.mem_map_of_mem hmem) _ (by simp) hsame
  rw [Std.ExtTreeMap.getElem?_insertIfNew]
  by_cases heq : last.mMsgId = msgId
  · rw [if_pos ⟨compare_eq_iff_eq.mpr heq, habsent⟩, if_pos heq]
  · rw [if_neg fun hnew => heq (compare_eq_iff_eq.mp hnew.1), if_neg heq]

theorem indexed_insertIfNew :
    Indexed (metaV ++ [last]) (metaFilter.insertIfNew last.mMsgId last) := by
  intro msgId msgMeta hlookup
  rw [lookup_insertIfNew hindexed hnodup] at hlookup
  split at hlookup
  · next heq =>
      cases hlookup
      exact ⟨by simp, heq⟩
  · exact hindexed.concat last msgId msgMeta hlookup

/-- The entries of the other messages stay. -/
theorem lookup_insertIfNew_of_mem (hmem : msgMeta ∈ metaV)
    (hlookup : metaFilter[msgMeta.mMsgId]? = some msgMeta) :
    (metaFilter.insertIfNew last.mMsgId last)[msgMeta.mMsgId]? = some msgMeta := by
  rw [lookup_insertIfNew hindexed hnodup, if_neg]
  · exact hlookup
  · intro heq
    rw [List.map_append, List.nodup_append] at hnodup
    exact hnodup.2.2 _ (List.mem_map_of_mem hmem) _ (by simp) heq.symm

end Concat

theorem nodup_of_concat {last : RsGxsMsgMetaData}
    (hnodup : ((metaV ++ [last]).map RsGxsMsgMetaData.mMsgId).Nodup) :
    (metaV.map RsGxsMsgMetaData.mMsgId).Nodup := by
  rw [List.map_append] at hnodup
  exact hnodup.of_append_left

/-! #### All other cases -/

/-- The loop takes the messages that it does not skip. -/
theorem foldl_pass_eq (threadHeads origMsgs : Bool) (metaV : List RsGxsMsgMetaData)
    (selection : MsgSelection) :
    metaV.foldl (MsgSelection.pass threadHeads origMsgs) selection =
      (metaV.filter fun msgMeta => (threadHeads → msgMeta.mParentId = 0) ∧
        (origMsgs → msgMeta.mMsgId = msgMeta.mOrigMsgId)).foldl MsgSelection.add selection := by
  rw [List.foldl_filter]
  congr 1
  funext selection msgMeta
  rw [MsgSelection.pass]
  cases threadHeads <;> cases origMsgs <;> by_cases hparent : msgMeta.mParentId = 0 <;>
    by_cases horig : msgMeta.mMsgId = msgMeta.mOrigMsgId <;> simp [hparent, horig, MsgSelection.add]

theorem foldl_add_spec (metaV : List RsGxsMsgMetaData) :
    (metaV.map RsGxsMsgMetaData.mMsgId).Nodup →
      Indexed metaV (metaV.foldl MsgSelection.add ⟨∅, ∅⟩).metaFilter ∧
        Selects (metaV.foldl MsgSelection.add ⟨∅, ∅⟩) (· ∈ metaV) := by
  induction metaV using List.reverseRecOn with
  | nil =>
      intro _
      refine ⟨?_, ?_, ?_⟩ <;> simp [Indexed]
  | append_singleton metaV last ih =>
      intro hnodup
      obtain ⟨hindexed, hselects⟩ := ih (nodup_of_concat hnodup)
      rw [List.foldl_append, List.foldl_cons, List.foldl_nil, MsgSelection.add]
      refine ⟨indexed_insertIfNew hindexed hnodup, ?_, ?_⟩
      · intro msgId
        rw [Finset.mem_insert, hselects.msgIds]
        constructor
        · rintro (rfl | ⟨msgMeta, hmem, rfl⟩)
          · exact ⟨last, by simp, rfl⟩
          · exact ⟨msgMeta, List.mem_append_left _ hmem, rfl⟩
        · rintro ⟨msgMeta, hmem, rfl⟩
          rw [List.mem_append, List.mem_singleton] at hmem
          rcases hmem with hmem | rfl
          · exact .inr ⟨msgMeta, hmem, rfl⟩
          · exact .inl rfl
      · intro msgMeta hmem
        rw [List.mem_append, List.mem_singleton] at hmem
        rcases hmem with hmem | rfl
        · exact lookup_insertIfNew_of_mem hindexed hnodup hmem (hselects.metaFilter msgMeta hmem)
        · exact (lookup_insertIfNew hindexed hnodup _).trans (if_pos rfl)

/-! #### The latest messages -/

theorem foldl_latestPass_eq (threadHeads : Bool) (metaV : List RsGxsMsgMetaData)
    (search : LatestSearch) :
    metaV.foldl (LatestSearch.pass threadHeads) search =
      (metaV.filter fun msgMeta => threadHeads → msgMeta.mParentId = 0).foldl
        LatestSearch.consider search := by
  rw [List.foldl_filter]
  congr 1
  funext search msgMeta
  rw [LatestSearch.pass]
  cases threadHeads <;> by_cases hparent : msgMeta.mParentId = 0 <;> simp [hparent]

/-- The search holds the latest messages, and the filter knows their metadata. -/
structure Searches (search : LatestSearch) (metaV : List RsGxsMsgMetaData) : Prop where
  indexed : Indexed metaV search.metaFilter
  origMsgTs : ∀ (origMsgId : RsGxsMessageId) (latest : RsGxsMessageId × Int),
    search.origMsgTs[origMsgId]? = some latest ↔
      ∃ msgMeta, LatestOf metaV msgMeta ∧ msgMeta.mOrigMsgId = origMsgId ∧
        (msgMeta.mMsgId, msgMeta.mPublishTs) = latest
  metaFilter : ∀ msgMeta, LatestOf metaV msgMeta →
    search.metaFilter[msgMeta.mMsgId]? = some msgMeta

/-- A message that is later than all others of its original replaces the one that was found. -/
theorem Searches.add {search : LatestSearch} {last : RsGxsMsgMetaData}
    (hsearches : Searches search metaV)
    (hnodup : ((metaV ++ [last]).map RsGxsMsgMetaData.mMsgId).Nodup)
    (hlater : ∀ other ∈ metaV, other.mOrigMsgId = last.mOrigMsgId →
      other.mPublishTs < last.mPublishTs) : Searches (search.add last) (metaV ++ [last]) where
  indexed := indexed_insertIfNew hsearches.indexed hnodup
  origMsgTs origMsgId latest := by
    rw [LatestSearch.add, OrderedMap.lookup_insert]
    by_cases heq : last.mOrigMsgId = origMsgId
    · rw [if_pos heq, Option.some.injEq]
      constructor
      · rintro rfl
        exact ⟨last, (isLatest_concat ..).mpr (.inr ⟨rfl, hlater⟩), heq, rfl⟩
      · rintro ⟨msgMeta, hlatest, rfl, rfl⟩
        rcases (isLatest_concat ..).mp hlatest with ⟨hold, hkept⟩ | ⟨rfl, -⟩
        · exact absurd (hkept heq) (hlater msgMeta hold.mem heq.symm).not_ge
        · rfl
    · rw [if_neg heq, hsearches.origMsgTs]
      refine exists_congr fun msgMeta => and_congr_left ?_
      rintro ⟨rfl, -⟩
      rw [LatestOf, LatestOf, isLatest_concat, or_iff_left, and_iff_left]
      · exact fun hsame => absurd hsame heq
      · rintro ⟨rfl, -⟩
        exact heq rfl
  metaFilter msgMeta hlatest := by
    rcases (isLatest_concat ..).mp hlatest with ⟨hold, -⟩ | ⟨rfl, -⟩
    · exact lookup_insertIfNew_of_mem hsearches.indexed hnodup hold.mem
        (hsearches.metaFilter msgMeta hold)
    · exact (lookup_insertIfNew hsearches.indexed hnodup _).trans (if_pos rfl)

/-- A message that is not later than the one that was found changes nothing. -/
theorem Searches.keep {search : LatestSearch} {last found : RsGxsMsgMetaData}
    (hsearches : Searches search metaV) (hfound : LatestOf metaV found)
    (hsame : found.mOrigMsgId = last.mOrigMsgId) (hle : last.mPublishTs ≤ found.mPublishTs) :
    Searches search (metaV ++ [last]) := by
  have hlatest : ∀ msgMeta, LatestOf (metaV ++ [last]) msgMeta ↔ LatestOf metaV msgMeta := by
    intro msgMeta
    rw [LatestOf, LatestOf, isLatest_concat]
    constructor
    · rintro (⟨hold, -⟩ | ⟨rfl, hlater⟩)
      · exact hold
      · exact absurd hle (hlater found hfound.mem hsame).not_ge
    · intro hold
      refine .inl ⟨hold, fun hkey => ?_⟩
      rwa [hold.unique _ _ hfound (hkey.symm.trans hsame.symm)]
  exact
    { indexed := hsearches.indexed.concat last
      origMsgTs := by simpa only [hlatest] using hsearches.origMsgTs
      metaFilter := by simpa only [hlatest] using hsearches.metaFilter }

theorem foldl_consider_spec (metaV : List RsGxsMsgMetaData) :
    (metaV.map RsGxsMsgMetaData.mMsgId).Nodup →
      Searches (metaV.foldl LatestSearch.consider ⟨∅, ∅⟩) metaV := by
  induction metaV using List.reverseRecOn with
  | nil => exact fun _ => ⟨by simp [Indexed], by simp [not_isLatest_nil], by simp [not_isLatest_nil]⟩
  | append_singleton metaV last ih =>
      intro hnodup
      have hsearches := ih (nodup_of_concat hnodup)
      rw [List.foldl_append, List.foldl_cons, List.foldl_nil]
      generalize metaV.foldl LatestSearch.consider ⟨∅, ∅⟩ = search at hsearches ⊢
      rw [LatestSearch.consider]
      cases hlookup : search.origMsgTs[last.mOrigMsgId]? with
      | none =>
          refine hsearches.add hnodup fun other hother hkey => ?_
          obtain ⟨chosen, hchosen, hsame⟩ := exists_isLatest RsGxsMsgMetaData.mOrigMsgId
            RsGxsMsgMetaData.mPublishTs metaV other hother
          have hpresent := (hsearches.origMsgTs last.mOrigMsgId _).mpr
            ⟨chosen, hchosen, hsame.trans hkey, rfl⟩
          rw [hlookup] at hpresent
          cases hpresent
      | some latest =>
          obtain ⟨found, hfound, hsame, rfl⟩ := (hsearches.origMsgTs _ latest).mp hlookup
          dsimp only
          split
          · next hlt =>
              refine hsearches.add hnodup fun other hother hkey => ?_
              exact (hfound.le hother (hkey.trans hsame.symm)).trans_lt hlt
          · next hle => exact hsearches.keep hfound hsame (not_lt.mp hle)

theorem Searches.found {search : LatestSearch} (hsearches : Searches search metaV) :
    Selects search.found (LatestOf metaV) where
  msgIds msgId := by
    rw [LatestSearch.found, List.mem_toFinset, List.mem_map]
    constructor
    · rintro ⟨⟨origMsgId, latest⟩, hmem, rfl⟩
      obtain ⟨msgMeta, hlatest, -, rfl⟩ :=
        (hsearches.origMsgTs origMsgId latest).mp ((OrderedMap.mem_toList _).mp hmem)
      exact ⟨msgMeta, hlatest, rfl⟩
    · rintro ⟨msgMeta, hlatest, rfl⟩
      exact ⟨(msgMeta.mOrigMsgId, msgMeta.mMsgId, msgMeta.mPublishTs),
        (OrderedMap.mem_toList _).mpr ((hsearches.origMsgTs _ _).mpr ⟨msgMeta, hlatest, rfl, rfl⟩),
        rfl⟩
  metaFilter := hsearches.metaFilter

/-! #### Both -/

/-- Of originals there is one for each original message id. -/
theorem latestOf_of_origMsg {opts : RsTokReqOptions} (horig : opts.OrigMsg)
    (hnodup : (metaV.map RsGxsMsgMetaData.mMsgId).Nodup) (hmem : msgMeta ∈ opts.candidates metaV) :
    LatestOf (opts.candidates metaV) msgMeta := by
  refine isLatest_of_mem _ _ ?_ msgMeta hmem
  have hsame : (opts.candidates metaV).map RsGxsMsgMetaData.mOrigMsgId =
      (opts.candidates metaV).map RsGxsMsgMetaData.mMsgId := by
    refine List.map_congr_left fun other hother => ?_
    have hadmits : opts.Admits other := by simpa using (List.mem_filter.mp hother).2
    exact (hadmits.2 horig).symm
  rw [hsame]
  exact hnodup.sublist (List.filter_sublist.map _)

theorem selectMsgs_spec (opts : RsTokReqOptions)
    (hnodup : (metaV.map RsGxsMsgMetaData.mMsgId).Nodup) :
    Selects (selectMsgs opts metaV) (opts.Chooses metaV) := by
  have hcandidates : ((opts.candidates metaV).map RsGxsMsgMetaData.mMsgId).Nodup :=
    hnodup.sublist (List.filter_sublist.map _)
  rw [selectMsgs]
  by_cases hlatest : ¬ opts.OrigMsg ∧ opts.Latest
  · have hskip : (metaV.filter fun msgMeta => decide (opts.Thread → msgMeta.mParentId = 0)) =
        opts.candidates metaV := by
      refine List.filter_congr fun msgMeta _ => ?_
      simp [Admits, hlatest.1]
    have hchooses : opts.Chooses metaV = LatestOf (opts.candidates metaV) := by
      funext msgMeta
      exact propext ⟨fun hchosen => hchosen.2 hlatest.2, fun hfound => ⟨hfound.mem, fun _ => hfound⟩⟩
    have hloop := foldl_latestPass_eq (decide opts.Thread) metaV ⟨∅, ∅⟩
    simp only [decide_eq_true_eq] at hloop
    rw [if_pos (by simpa using hlatest), hloop, hskip, hchooses]
    exact (foldl_consider_spec _ hcandidates).found
  · have hchooses : opts.Chooses metaV = (· ∈ opts.candidates metaV) := by
      funext msgMeta
      refine propext ⟨And.left, fun hmem => ⟨hmem, fun hasked => ?_⟩⟩
      exact latestOf_of_origMsg (by_contra fun horig => hlatest ⟨horig, hasked⟩) hnodup hmem
    have hloop := foldl_pass_eq (decide opts.Thread) (decide opts.OrigMsg) metaV ⟨∅, ∅⟩
    simp only [decide_eq_true_eq] at hloop
    rw [if_neg (by simpa using hlatest), hloop, hchooses]
    exact (foldl_add_spec _ hcandidates).2

end Selection

/-! ### The two stages -/

theorem mem_filterMsgList {selection : MsgSelection} {Chosen : RsGxsMsgMetaData → Prop}
    (hselects : Selects selection Chosen) (opts : RsTokReqOptions) (msgId : RsGxsMessageId) :
    msgId ∈ selection.filterMsgList opts ↔
      ∃ msgMeta, Chosen msgMeta ∧ checkMsgFilter opts msgMeta ∧ msgMeta.mMsgId = msgId := by
  rw [MsgSelection.filterMsgList, Finset.mem_filter, hselects.msgIds]
  constructor
  · rintro ⟨⟨msgMeta, hchosen, rfl⟩, hfilter⟩
    rw [hselects.metaFilter msgMeta hchosen, Option.any_some] at hfilter
    exact ⟨msgMeta, hchosen, hfilter, rfl⟩
  · rintro ⟨msgMeta, hchosen, hfilter, rfl⟩
    rw [hselects.metaFilter msgMeta hchosen, Option.any_some]
    exact ⟨⟨msgMeta, hchosen, rfl⟩, hfilter⟩

theorem getMsgMeta_eq_some {row : MsgRow} {msgMeta : RsGxsMsgMetaData} :
    row.getMsgMeta = some msgMeta ↔ row.Named ∧ row.metaData = msgMeta := by
  rw [MsgRow.getMsgMeta]
  split
  · next hnamed => simp [hnamed]
  · next hnamed => simp [hnamed]

theorem named_of_getMessage {row : MsgRow} {msg : RetrievedMsg} (hmsg : row.getMessage = some msg) :
    row.Named := by
  rw [MsgRow.getMessage] at hmsg
  by_contra hnamed
  rw [if_neg hnamed] at hmsg
  cases hmsg

namespace MsgTable

variable (db : MsgTable)

/-- The metadata of the messages that are requested of a group. -/
def metas (grpId : RsGxsGroupId) (msgIdV : Finset RsGxsMessageId) : List RsGxsMsgMetaData :=
  (db.query grpId msgIdV).filterMap MsgRow.getMsgMeta

variable {db} {grpId : RsGxsGroupId} {msgIdV : Finset RsGxsMessageId} {row other : MsgRow}
  {opts : RsTokReqOptions} {reqIds : GxsMsgReq}

theorem mem_query : row ∈ db.query grpId msgIdV ↔ row ∈ db.rows ∧ row.metaData.mGroupId = grpId ∧
    (msgIdV = ∅ ∨ row.metaData.mMsgId ∈ msgIdV) := by
  rw [query]
  split
  · next hempty => simp [hempty]
  · next hids =>
      simp only [List.mem_flatMap, Finset.mem_sort, List.mem_filter, decide_eq_true_eq, hids,
        false_or]
      constructor
      · rintro ⟨msgId, hmem, hrow, hgroup, rfl⟩
        exact ⟨hrow, hgroup, hmem⟩
      · rintro ⟨hrow, hgroup, hmem⟩
        exact ⟨row.metaData.mMsgId, hmem, hrow, hgroup, rfl⟩

/-- The message id is the primary key. -/
theorem row_unique (hrow : row ∈ db.rows) (hnamed : row.Named) (hother : other ∈ db.rows)
    (hnamed' : other.Named) (hsame : row.metaData.mMsgId = other.metaData.mMsgId) : row = other := by
  refine List.inj_on_of_nodup_map db.unique ?_ ?_ hsame
  · exact List.mem_filter.mpr ⟨hrow, by simpa using hnamed⟩
  · exact List.mem_filter.mpr ⟨hother, by simpa using hnamed'⟩

theorem nodup_metas (db : MsgTable) (grpId : RsGxsGroupId) (msgIdV : Finset RsGxsMessageId) :
    ((db.metas grpId msgIdV).map RsGxsMsgMetaData.mMsgId).Nodup := by
  have hmetas : ∀ rows : List MsgRow, (rows.filterMap MsgRow.getMsgMeta).map
      RsGxsMsgMetaData.mMsgId = (rows.filter MsgRow.Named).map fun row => row.metaData.mMsgId := by
    intro rows
    induction rows with
    | nil => rfl
    | cons row rows ih => by_cases hnamed : row.Named <;> simp [MsgRow.getMsgMeta, hnamed, ih]
  rw [metas, hmetas, query]
  split
  · exact db.unique.sublist ((List.filter_sublist.filter _).map _)
  · rw [List.filter_flatMap, List.map_flatMap, List.nodup_flatMap]
    constructor
    · intro msgId _
      exact db.unique.sublist ((List.filter_sublist.filter _).map _)
    · refine (Finset.sort_nodup _ _).imp fun {first second} hne => ?_
      intro msgId hfirst hsecond
      simp only [List.mem_map, List.mem_filter, decide_eq_true_eq] at hfirst hsecond
      obtain ⟨row, ⟨⟨-, -, hrow⟩, -⟩, rfl⟩ := hfirst
      obtain ⟨row', ⟨⟨-, -, hrow'⟩, -⟩, hsame⟩ := hsecond
      exact hne (hrow.symm.trans (hsame.symm.trans hrow'))

theorem selects (db : MsgTable) (opts : RsTokReqOptions) (grpId : RsGxsGroupId)
    (msgIdV : Finset RsGxsMessageId) :
    Selects (selectMsgs opts (db.metas grpId msgIdV)) (opts.Chooses (db.metas grpId msgIdV)) :=
  selectMsgs_spec opts (nodup_metas db grpId msgIdV)

theorem lookup_getMsgList (grpId : RsGxsGroupId) :
    (db.getMsgList reqIds opts)[grpId]? = (reqIds[grpId]?).bind fun msgIdV =>
      if (selectMsgs opts (db.metas grpId msgIdV)).msgIds = ∅ then none
      else some ((selectMsgs opts (db.metas grpId msgIdV)).filterMsgList opts) := by
  rw [getMsgList, Std.ExtTreeMap.getElem?_filterMap', retrieveGxsMsgMetaData,
    Std.ExtTreeMap.getElem?_map]
  cases reqIds[grpId]? <;> rfl

/-! ### Exact answers -/

variable (db opts reqIds) in
/-- A message of a requested group that the options choose and the masks let through. -/
def Matches (grpId : RsGxsGroupId) (msgMeta : RsGxsMsgMetaData) : Prop :=
  ∃ msgIdV, reqIds[grpId]? = some msgIdV ∧ opts.Chooses (db.metas grpId msgIdV) msgMeta ∧
    checkMsgFilter opts msgMeta

variable (db opts reqIds) in
/-- The answers hold the matching messages, each once; of the versions of a message at most one is
among them, and no candidate is later. -/
structure Exact : Prop where
  summary : ∀ (grpId : RsGxsGroupId) (msgMeta : RsGxsMsgMetaData),
    msgMeta ∈ ((db.getMsgSummary reqIds opts)[grpId]?).getD [] ↔ Matches db opts reqIds grpId msgMeta
  once : ∀ grpId : RsGxsGroupId,
    ((((db.getMsgSummary reqIds opts)[grpId]?).getD []).map RsGxsMsgMetaData.mMsgId).Nodup
  data : ∀ (grpId : RsGxsGroupId) (msg : RetrievedMsg),
    msg ∈ ((db.getMsgData reqIds opts)[grpId]?).getD [] ↔
      ∃ row ∈ db.rows, Matches db opts reqIds grpId row.metaData ∧ row.getMessage = some msg
  latest : opts.Latest → ∀ (grpId : RsGxsGroupId) (msgIdV : Finset RsGxsMessageId),
    reqIds[grpId]? = some msgIdV → ∀ msgMeta ∈ opts.candidates (db.metas grpId msgIdV),
      ∃! chosen, opts.Chooses (db.metas grpId msgIdV) chosen ∧
        chosen.mOrigMsgId = msgMeta.mOrigMsgId ∧ msgMeta.mPublishTs ≤ chosen.mPublishTs

variable (db opts reqIds) in
/-- Of each requested group that has candidates a message matches. -/
def Matching : Prop :=
  ∀ (grpId : RsGxsGroupId) (msgIdV : Finset RsGxsMessageId), reqIds[grpId]? = some msgIdV →
    (∃ msgMeta, msgMeta ∈ opts.candidates (db.metas grpId msgIdV)) →
      ∃ msgMeta, Matches db opts reqIds grpId msgMeta

theorem lookup_getMsgSummary (grpId : RsGxsGroupId) :
    (db.getMsgSummary reqIds opts)[grpId]? =
      ((db.getMsgList reqIds opts)[grpId]?).map (db.metas grpId) := by
  rw [getMsgSummary, retrieveGxsMsgMetaData, Std.ExtTreeMap.getElem?_map]
  rfl

theorem lookup_getMsgData (grpId : RsGxsGroupId) :
    (db.getMsgData reqIds opts)[grpId]? = ((db.getMsgList reqIds opts)[grpId]?).map fun msgIdV =>
      (db.query grpId msgIdV).filterMap MsgRow.getMessage := by
  rw [getMsgData, retrieveNxsMsgs, Std.ExtTreeMap.getElem?_map]

/-- Where a message matches, or there is no candidate, the rows that are fetched are the matching
ones. -/
theorem mem_query_getMsgList (hmatching : Matching db opts reqIds) (hnamed : row.Named) :
    (∃ msgIdV, (db.getMsgList reqIds opts)[grpId]? = some msgIdV ∧ row ∈ db.query grpId msgIdV) ↔
      row ∈ db.rows ∧ Matches db opts reqIds grpId row.metaData := by
  rw [lookup_getMsgList]
  cases hreq : reqIds[grpId]? with
  | none => simp [Matches, hreq]
  | some msgIdV =>
      have hselects := selects db opts grpId msgIdV
      rw [Option.bind_some]
      split
      · next hempty =>
          simp only [reduceCtorEq, false_and, exists_false, false_iff, not_and]
          rintro - ⟨msgIdV', hreq', hchosen, -⟩
          obtain rfl : msgIdV = msgIdV' := Option.some.inj (hreq.symm.trans hreq')
          have hmem := (hselects.msgIds _).mpr ⟨row.metaData, hchosen, rfl⟩
          rw [hempty] at hmem
          exact absurd hmem (Finset.notMem_empty _)
      · next hids =>
          obtain ⟨msgId, hmsgId⟩ := Finset.nonempty_iff_ne_empty.mpr hids
          obtain ⟨candidate, hcandidate, -⟩ := (hselects.msgIds msgId).mp hmsgId
          obtain ⟨found, msgIdV', hreq', hchosen, hfilter⟩ :=
            hmatching grpId msgIdV hreq ⟨candidate, hcandidate.1⟩
          obtain rfl : msgIdV = msgIdV' := Option.some.inj (hreq.symm.trans hreq')
          have hkept : (selectMsgs opts (db.metas grpId msgIdV)).filterMsgList opts ≠ ∅ :=
            Finset.ne_empty_of_mem
              ((mem_filterMsgList hselects opts _).mpr ⟨found, hchosen, hfilter, rfl⟩)
          simp only [Option.some.injEq, exists_eq_left', mem_query, hkept, false_or,
            mem_filterMsgList hselects]
          refine and_congr_right fun hrow => ?_
          constructor
          · rintro ⟨-, msgMeta, hchosen, hfilter, hsame⟩
            obtain ⟨other, hother, hmeta⟩ :=
              List.mem_filterMap.mp (List.mem_of_mem_filter hchosen.1)
            obtain ⟨hnamed', rfl⟩ := getMsgMeta_eq_some.mp hmeta
            obtain rfl := row_unique (mem_query.mp hother).1 hnamed' hrow hnamed hsame
            exact ⟨msgIdV, hreq, hchosen, hfilter⟩
          · rintro ⟨msgIdV', hreq', hchosen, hfilter⟩
            obtain rfl : msgIdV = msgIdV' := Option.some.inj (hreq.symm.trans hreq')
            obtain ⟨other, hother, hmeta⟩ :=
              List.mem_filterMap.mp (List.mem_of_mem_filter hchosen.1)
            have hgroup := (mem_query.mp hother).2.1
            rw [(getMsgMeta_eq_some.mp hmeta).2] at hgroup
            exact ⟨hgroup, row.metaData, hchosen, hfilter, rfl⟩

/-- So what is decoded of these rows comes from the matching messages. -/
theorem mem_fetched (hmatching : Matching db opts reqIds) {Item : Type}
    {decode : MsgRow → Option Item}
    (hnamed : ∀ (row : MsgRow) (item : Item), decode row = some item → row.Named)
    (grpId : RsGxsGroupId) (item : Item) :
    item ∈ (((db.getMsgList reqIds opts)[grpId]?).map fun msgIdV =>
        (db.query grpId msgIdV).filterMap decode).getD [] ↔
      ∃ row ∈ db.rows, Matches db opts reqIds grpId row.metaData ∧ decode row = some item := by
  constructor
  · intro hmem
    cases hlist : (db.getMsgList reqIds opts)[grpId]? with
    | none => simp [hlist] at hmem
    | some msgIdV =>
        rw [hlist, Option.map_some, Option.getD_some] at hmem
        obtain ⟨row, hrow, hitem⟩ := List.mem_filterMap.mp hmem
        obtain ⟨hmem, hmatches⟩ :=
          (mem_query_getMsgList hmatching (hnamed row item hitem)).mp ⟨msgIdV, hlist, hrow⟩
        exact ⟨row, hmem, hmatches, hitem⟩
  · rintro ⟨row, hrow, hmatches, hitem⟩
    obtain ⟨msgIdV, hlist, hfetched⟩ :=
      (mem_query_getMsgList hmatching (hnamed row item hitem)).mpr ⟨hrow, hmatches⟩
    rw [hlist, Option.map_some, Option.getD_some]
    exact List.mem_filterMap.mpr ⟨row, hfetched, hitem⟩

/-- A group of which nothing matches is returned as a whole. -/
theorem matching_of_summary
    (hsummary : ∀ (grpId : RsGxsGroupId) (msgMeta : RsGxsMsgMetaData),
      msgMeta ∈ ((db.getMsgSummary reqIds opts)[grpId]?).getD [] →
        Matches db opts reqIds grpId msgMeta) : Matching db opts reqIds := by
  rintro grpId msgIdV hreq ⟨candidate, hcandidate⟩
  by_contra hnone
  have hselects := selects db opts grpId msgIdV
  obtain ⟨chosen, hchosen⟩ := exists_chooses hcandidate
  have hids : (selectMsgs opts (db.metas grpId msgIdV)).msgIds ≠ ∅ :=
    Finset.ne_empty_of_mem ((hselects.msgIds _).mpr ⟨chosen, hchosen, rfl⟩)
  have hkept : (selectMsgs opts (db.metas grpId msgIdV)).filterMsgList opts = ∅ := by
    rw [Finset.eq_empty_iff_forall_notMem]
    intro msgId hmem
    obtain ⟨msgMeta, hchosen, hfilter, -⟩ := (mem_filterMsgList hselects opts _).mp hmem
    exact hnone ⟨msgMeta, msgIdV, hreq, hchosen, hfilter⟩
  refine hnone ⟨candidate, hsummary grpId candidate ?_⟩
  obtain ⟨row, hrow, hmeta⟩ := List.mem_filterMap.mp (List.mem_of_mem_filter hcandidate)
  obtain ⟨hmem, hgroup, -⟩ := mem_query.mp hrow
  rw [lookup_getMsgSummary, lookup_getMsgList, hreq, Option.bind_some, if_neg hids, hkept,
    Option.map_some, Option.getD_some]
  exact List.mem_filterMap.mpr ⟨row, mem_query.mpr ⟨hmem, hgroup, .inl rfl⟩, hmeta⟩

theorem existsUnique_chooses (hlatest : opts.Latest) {msgMeta : RsGxsMsgMetaData}
    {metaV : List RsGxsMsgMetaData} (hmem : msgMeta ∈ opts.candidates metaV) :
    ∃! chosen, opts.Chooses metaV chosen ∧ chosen.mOrigMsgId = msgMeta.mOrigMsgId ∧
      msgMeta.mPublishTs ≤ chosen.mPublishTs := by
  obtain ⟨chosen, hchosen, hsame⟩ := exists_isLatest RsGxsMsgMetaData.mOrigMsgId
    RsGxsMsgMetaData.mPublishTs (opts.candidates metaV) msgMeta hmem
  refine ⟨chosen, ⟨⟨hchosen.mem, fun _ => hchosen⟩, hsame, hchosen.le hmem hsame.symm⟩, ?_⟩
  rintro other ⟨hother, hkey, -⟩
  exact (hother.2 hlatest).unique _ _ hchosen (hkey.trans hsame.symm)

/-- **Message queries.** They return exactly the matching messages if and only if, of each requested
group that has a candidate, a message matches. -/
theorem messageQueries_iff (db : MsgTable) (reqIds : GxsMsgReq) (opts : RsTokReqOptions) :
    Exact db opts reqIds ↔ Matching db opts reqIds := by
  constructor
  · exact fun hexact => matching_of_summary fun grpId msgMeta => (hexact.summary grpId msgMeta).mp
  · intro hmatching
    constructor
    · intro grpId msgMeta
      rw [lookup_getMsgSummary]
      refine (mem_fetched hmatching (fun row _ hmeta => (getMsgMeta_eq_some.mp hmeta).1) grpId
        msgMeta).trans ⟨?_, fun hmatches => ?_⟩
      · rintro ⟨row, -, hmatches, hmeta⟩
        rwa [← (getMsgMeta_eq_some.mp hmeta).2]
      · obtain ⟨msgIdV, -, hchosen, -⟩ := id hmatches
        obtain ⟨row, hrow, hmeta⟩ := List.mem_filterMap.mp (List.mem_of_mem_filter hchosen.1)
        refine ⟨row, (mem_query.mp hrow).1, ?_, hmeta⟩
        rwa [(getMsgMeta_eq_some.mp hmeta).2]
    · intro grpId
      rw [lookup_getMsgSummary]
      cases (db.getMsgList reqIds opts)[grpId]? with
      | none => exact List.nodup_nil
      | some msgIdV => exact nodup_metas db grpId msgIdV
    · intro grpId msg
      rw [lookup_getMsgData]
      exact mem_fetched hmatching (fun _ _ => named_of_getMessage) grpId msg
    · exact fun hlatest _ _ _ _ hmem => existsUnique_chooses hlatest hmem

/-- A message of group 1 with no status flag. -/
def sampleRow : MsgRow :=
  ⟨⟨1, 2, 0, 2, 0, 0, 0, 10⟩, [], some [42]⟩

def sampleTable : MsgTable := ⟨[sampleRow], by decide⟩

/-- No message has the status that is asked for, and the message is returned all the same. -/
theorem messageQueries_counterexample :
    ¬ ∀ (db : MsgTable) (reqIds : GxsMsgReq) (opts : RsTokReqOptions), Exact db opts reqIds := by
  intro hall
  have hexact := hall sampleTable ((∅ : GxsMsgReq).insert 1 ∅) ⟨0, 1, 1, 0, 0⟩
  have hmetas : sampleTable.metas 1 ∅ = [sampleRow.metaData] := by decide
  have hmatching := matching_of_summary fun grpId msgMeta => (hexact.summary grpId msgMeta).mp
  obtain ⟨msgMeta, msgIdV, hreq, hchosen, hfilter⟩ := hmatching 1 ∅
    (OrderedMap.lookup_insert_self _ _ _) ⟨sampleRow.metaData, by rw [hmetas]; decide⟩
  obtain rfl : ∅ = msgIdV := Option.some.inj ((OrderedMap.lookup_insert_self _ _ _).symm.trans hreq)
  have hmem := List.mem_of_mem_filter hchosen.1
  rw [hmetas, List.mem_singleton] at hmem
  rw [hmem] at hfilter
  exact absurd hfilter (by decide)

end MsgTable

end RetroShare.Gxs
