import RetroShare.GxsTrans.Cleanup

/-!
# What the cleanup deletes

The join of mails and receipts goes through the mail id alone. So the receipt of anybody deletes a
mail, and of several mails with one id only the last can be deleted. The mails that get deleted are
those which their own authors receipted just when, under every receipted id, the two agree.
-/

namespace RetroShare.GxsTrans

open Bytes Serialiser

variable {store : DataService}

/-! ### The first loop -/

def RsNxsMsg.isMail (mailId : RsGxsTransId) (msg : RsNxsMsg) : Bool :=
  msg.item = some (.mail mailId)

def RsNxsMsg.isReceipt (mailId : RsGxsTransId) (msg : RsNxsMsg) : Bool :=
  msg.item = some (.presignedReceipt mailId)

/-- The last mail with that id, in the order of the thread. -/
def lastMail (mailId : RsGxsTransId) (msgs : List RsNxsMsg) : Option RsNxsMsg :=
  (msgs.filter (·.isMail mailId)).getLast?

theorem lastMail_append (mailId : RsGxsTransId) (msgs : List RsNxsMsg) (msg : RsNxsMsg) :
    lastMail mailId (msgs ++ [msg]) =
      if msg.isMail mailId then some msg else lastMail mailId msgs := by
  unfold lastMail
  by_cases hmail : msg.isMail mailId <;> simp [List.filter_append, hmail]

theorem mem_of_lastMail {mailId : RsGxsTransId} {msgs : List RsNxsMsg} {msg : RsNxsMsg}
    (hlast : lastMail mailId msgs = some msg) : msg ∈ msgs ∧ msg.isMail mailId := by
  have hmem := List.mem_of_getLast? hlast
  rwa [List.mem_filter] at hmem

theorem storedMsgs_collect (found : Collected) (msg : RsNxsMsg) (mailId : RsGxsTransId) :
    (found.collect msg).storedMsgs[mailId]? =
      if msg.isMail mailId then some (msg.mGroupId, msg.mMsgId) else found.storedMsgs[mailId]? := by
  unfold Collected.collect Collected.account RsNxsMsg.isMail
  cases hitem : msg.item with
  | none => simp
  | some item =>
      cases item with
      | mail k => simp [OrderedMap.lookup_insert]
      | presignedReceipt k => simp
      | unknown => simp

theorem mem_receivedMsgs_collect (found : Collected) (msg : RsNxsMsg) (mailId : RsGxsTransId) :
    mailId ∈ (found.collect msg).receivedMsgs ↔
      mailId ∈ found.receivedMsgs ∨ msg.isReceipt mailId := by
  unfold Collected.collect Collected.account RsNxsMsg.isReceipt
  cases hitem : msg.item with
  | none => simp
  | some item =>
      cases item with
      | mail k => simp
      | presignedReceipt k => simp [eq_comm]
      | unknown => simp

/-- A mail id leads to the last mail that carries it. -/
theorem storedMsgs_foldl (msgs : List RsNxsMsg) (mailId : RsGxsTransId) :
    (msgs.foldl Collected.collect Collected.empty).storedMsgs[mailId]? =
      (lastMail mailId msgs).map fun msg => (msg.mGroupId, msg.mMsgId) := by
  induction msgs using List.reverseRecOn with
  | nil => simp [Collected.empty, lastMail]
  | append_singleton msgs msg ih =>
      rw [List.foldl_append, List.foldl_cons, List.foldl_nil, storedMsgs_collect, ih,
        lastMail_append]
      split <;> rfl

theorem mem_receivedMsgs_foldl (msgs : List RsNxsMsg) (mailId : RsGxsTransId) :
    mailId ∈ (msgs.foldl Collected.collect Collected.empty).receivedMsgs ↔
      ∃ msg ∈ msgs, msg.isReceipt mailId := by
  induction msgs using List.reverseRecOn with
  | nil => simp [Collected.empty]
  | append_singleton msgs msg ih =>
      rw [List.foldl_append, List.foldl_cons, List.foldl_nil, mem_receivedMsgs_collect, ih]
      simp [or_and_right, exists_or]

/-! ### The second loop -/

theorem scheduled_schedule (found : Collected) (msgsToDel : GxsMsgReq) (mailId : RsGxsTransId)
    (groupId : RsGxsGroupId) (msgId : RsGxsMessageId) :
    Scheduled (found.schedule msgsToDel mailId) groupId msgId ↔
      Scheduled msgsToDel groupId msgId ∨ found.storedMsgs[mailId]? = some (groupId, msgId) := by
  unfold Collected.schedule
  cases hstored : found.storedMsgs[mailId]? with
  | none => simp
  | some ids =>
      obtain ⟨g, m⟩ := ids
      simp only [Scheduled, OrderedMap.lookup_insert]
      by_cases hgroup : g = groupId
      · subst hgroup
        cases hbefore : msgsToDel[g]? with
        | none => simp [eq_comm]
        | some msgIds =>
            simp only [if_true, Option.getD_some, Option.some.injEq, exists_eq_left',
              Finset.mem_insert, Prod.mk.injEq, true_and]
            rw [or_comm, eq_comm]
      · simp [hgroup]

theorem scheduled_foldl (found : Collected) (mailIds : List RsGxsTransId) (groupId : RsGxsGroupId)
    (msgId : RsGxsMessageId) :
    Scheduled (mailIds.foldl found.schedule ∅) groupId msgId ↔
      ∃ mailId ∈ mailIds, found.storedMsgs[mailId]? = some (groupId, msgId) := by
  induction mailIds using List.reverseRecOn with
  | nil => simp [Scheduled]
  | append_singleton mailIds mailId ih =>
      rw [List.foldl_append, List.foldl_cons, List.foldl_nil, scheduled_schedule, ih]
      simp [or_and_right, exists_or]

/-! ### The result -/

theorem stored_collect (store : DataService) :
    store.messages.toList.foldl (fun found group => group.2.foldl Collected.collect found)
      Collected.empty = store.stored.foldl Collected.collect Collected.empty := by
  rw [DataService.stored, List.foldl_flatMap]

/-- What is scheduled: the last mail under an id that has a receipt. -/
theorem scheduled_cleanup (store : DataService) (groupId : RsGxsGroupId) (msgId : RsGxsMessageId) :
    Scheduled store.cleanup.1 groupId msgId ↔
      ∃ mailId msg, lastMail mailId store.stored = some msg ∧
        (∃ receipt ∈ store.stored, receipt.isReceipt mailId) ∧
        msg.mGroupId = groupId ∧ msg.mMsgId = msgId := by
  rw [DataService.cleanup, stored_collect, scheduled_foldl]
  simp only [mem_receivedMsgs_foldl, storedMsgs_foldl, Option.map_eq_some_iff, Prod.mk.injEq]
  constructor
  · rintro ⟨mailId, hreceipt, msg, hlast, hgroup, hmsg⟩
    exact ⟨mailId, msg, hlast, hreceipt, hgroup, hmsg⟩
  · rintro ⟨mailId, msg, hlast, hreceipt, hgroup, hmsg⟩
    exact ⟨mailId, hreceipt, msg, hlast, hgroup, hmsg⟩

theorem eq_of_mMsgId_eq {a b : RsNxsMsg} (ha : a ∈ store.stored) (hb : b ∈ store.stored)
    (heq : a.mMsgId = b.mMsgId) : a = b :=
  List.inj_on_of_nodup_map store.distinct ha hb heq

theorem mailId_unique {msg : RsNxsMsg} {k mailId : RsGxsTransId} (hk : msg.isMail k)
    (hmail : msg.isMail mailId) : k = mailId := by
  simp only [RsNxsMsg.isMail, decide_eq_true_eq] at hk hmail
  rw [hk] at hmail
  injection hmail with hmail
  injection hmail

/-- Of a mail: it is scheduled when it is the last under its id and the id has a receipt. -/
theorem scheduled_mail {mail : RsNxsMsg} {mailId : RsGxsTransId} (hstored : mail ∈ store.stored)
    (hmail : mail.isMail mailId) :
    Scheduled store.cleanup.1 mail.mGroupId mail.mMsgId ↔
      lastMail mailId store.stored = some mail ∧
        ∃ receipt ∈ store.stored, receipt.isReceipt mailId := by
  rw [scheduled_cleanup]
  constructor
  · rintro ⟨k, msg, hlast, hreceipt, -, hid⟩
    obtain ⟨hmem, hk⟩ := mem_of_lastMail hlast
    have hsame : msg = mail := eq_of_mMsgId_eq hmem hstored hid
    rw [hsame] at hlast hk
    rw [mailId_unique hk hmail] at hlast hreceipt
    exact ⟨hlast, hreceipt⟩
  · rintro ⟨hlast, hreceipt⟩
    exact ⟨mailId, mail, hlast, hreceipt, rfl, rfl⟩

/-- The author of the mail has stored a receipt for it. -/
def Receipted (store : DataService) (mailId : RsGxsTransId) (mail : RsNxsMsg) : Prop :=
  ∃ receipt ∈ store.stored, receipt.isReceipt mailId ∧ receipt.mAuthorId = mail.mAuthorId

/-- What the cleanup is for: it drops the mails that their own authors receipted, and no others. -/
def DropsReceipted (store : DataService) : Prop :=
  ∀ mail ∈ store.stored, ∀ mailId, mail.isMail mailId →
    (Scheduled store.cleanup.1 mail.mGroupId mail.mMsgId ↔ Receipted store mailId mail)

/-- Under an id that somebody receipted, the last mail has a receipt of its author and no other mail
has one of its own. -/
def LastReceipted (store : DataService) : Prop :=
  ∀ receipt ∈ store.stored, ∀ mailId, receipt.isReceipt mailId →
    ∀ mail ∈ store.stored, mail.isMail mailId →
      (Receipted store mailId mail ↔ lastMail mailId store.stored = some mail)

/-- **Deletion of receipted mails.** The thread schedules the mails receipted by their authors
exactly when, under every receipted id, this is the last mail of that id. -/
theorem dropsReceipted_iff (store : DataService) :
    DropsReceipted store ↔ LastReceipted store := by
  constructor
  · intro hdrops receipt hreceipt mailId hid mail hmem hmail
    rw [← hdrops mail hmem mailId hmail, scheduled_mail hmem hmail]
    exact and_iff_left ⟨receipt, hreceipt, hid⟩
  · intro hlast mail hmem mailId hmail
    rw [scheduled_mail hmem hmail]
    constructor
    · rintro ⟨hlastMail, receipt, hreceipt, hid⟩
      exact (hlast receipt hreceipt mailId hid mail hmem hmail).mpr hlastMail
    · intro hown
      obtain ⟨receipt, hreceipt, hid, hauthor⟩ := hown
      exact ⟨(hlast receipt hreceipt mailId hid mail hmem hmail).mp
        ⟨receipt, hreceipt, hid, hauthor⟩, receipt, hreceipt, hid⟩

/-! ### The receipt of a stranger -/

/-- A mail with id 7 by identity 1. -/
def sampleMail : RsNxsMsg where
  mGroupId := 5
  mMsgId := 20
  mAuthorId := 1
  msg := [0x02, 0x02, 0x30, 0x01, 0, 0, 0, 37] ++ bigEndian 8 7 ++ [1] ++ List.replicate 16 0xff ++
    bigEndian 4 0

/-- A receipt for it by identity 2. -/
def strangerReceipt : RsNxsMsg where
  mGroupId := 5
  mMsgId := 21
  mAuthorId := 2
  msg := [0x02, 0x02, 0x30, 0x02, 0, 0, 0, 16] ++ bigEndian 8 7

theorem item_sampleMail : sampleMail.item = some (.mail 7) := by
  decide

theorem item_strangerReceipt : strangerReceipt.item = some (.presignedReceipt 7) := by
  decide

def strangerStore : DataService where
  messages := (∅ : OrderedMap RsGxsGroupId (List RsNxsMsg)).insert 5 [sampleMail, strangerReceipt]
  filed := by
    intro entry hentry msg hmsg
    rw [OrderedMap.mem_toList, OrderedMap.lookup_insert] at hentry
    split at hentry
    · next hkey =>
        rw [← Option.some.inj hentry] at hmsg
        simp only [List.mem_cons, List.not_mem_nil, or_false] at hmsg
        obtain rfl | rfl := hmsg <;> exact hkey
    · simp at hentry
  distinct := by decide

theorem stored_strangerStore : strangerStore.stored = [sampleMail, strangerReceipt] := rfl

theorem dropsReceipted_counterexample : ¬ DropsReceipted strangerStore := by
  intro hdrops
  have hmem : sampleMail ∈ strangerStore.stored := by simp [stored_strangerStore]
  have hmail : sampleMail.isMail 7 := by simp [RsNxsMsg.isMail, item_sampleMail]
  have hscheduled : Scheduled strangerStore.cleanup.1 sampleMail.mGroupId sampleMail.mMsgId := by
    rw [scheduled_mail hmem hmail]
    constructor
    · simp [lastMail, stored_strangerStore, RsNxsMsg.isMail, item_sampleMail, item_strangerReceipt]
    · exact ⟨strangerReceipt, by simp [stored_strangerStore],
        by simp [RsNxsMsg.isReceipt, item_strangerReceipt]⟩
  obtain ⟨receipt, hstored, hreceipt, hauthor⟩ := (hdrops _ hmem 7 hmail).mp hscheduled
  rw [stored_strangerStore, List.mem_cons, List.mem_singleton] at hstored
  obtain rfl | rfl := hstored
  · simp [RsNxsMsg.isReceipt, item_sampleMail] at hreceipt
  · exact absurd hauthor (by decide)

end RetroShare.GxsTrans
