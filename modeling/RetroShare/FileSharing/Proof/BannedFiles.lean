import RetroShare.FileSharing.BannedFiles
import RetroShare.Foundation.Transition

/-!
# Tables of banned files agree

After each check the list of banned hashes and what friends were told follow the tables, unless a
change to the user's list has no later time than what a friend was last sent, or the record of a
friend who has left held hashes that nothing else lists: dropping a record is no change that the list
is made again for.
-/

namespace RetroShare.FileSharing.BanTables

open Transition

variable {encryptHash : FileHash → FileHash} {s t u : BanTables} {p q : PeerId} {hash : FileHash}
  {now : Int} {sessionId : PeerId → Nat}

/-! ### Sessions -/

/-- The hashes that a list of items carries together. -/
def carried (items : List BannedHashesItem) : Finset FileHash :=
  items.foldr (fun item hashes => item.encryptedHashes ∪ hashes) ∅

/-- The hashes of the session that the newest item belongs to. -/
def latestSession : List BannedHashesItem → Finset FileHash
  | [] => ∅
  | item :: items => carried (item :: items.takeWhile (·.sessionId = item.sessionId))

def encryptedKeys (encryptHash : FileHash → FileHash)
    (primary : OrderedMap FileHash BannedFileEntry) : Finset FileHash :=
  ((primary.toList.map Prod.fst).map encryptHash).toFinset

/-- The last session sent to the peer is about the list as it is. -/
def Told (encryptHash : FileHash → FileHash) (s : BanTables) (p : PeerId) : Prop :=
  carried (s.sent p) = encryptedKeys encryptHash s.mPrimaryBanList

theorem carried_append (items items' : List BannedHashesItem) :
    carried (items ++ items') = carried items ∪ carried items' := by
  induction items with
  | nil => simp [carried]
  | cons item items ih =>
      have hstep : ∀ items, carried (item :: items) = item.encryptedHashes ∪ carried items :=
        fun _ => rfl
      rw [List.cons_append, hstep, hstep, ih, Finset.union_assoc]

theorem carried_packHash (sid : Nat) (acc : List BannedHashesItem × Option BannedHashesItem) :
    carried ((packHash encryptHash p sid acc hash).1 ++
        (packHash encryptHash p sid acc hash).2.toList) =
      carried (acc.1 ++ acc.2.toList) ∪ {encryptHash hash} := by
  obtain ⟨items, item⟩ := acc
  have hone : ∀ item : BannedHashesItem, carried [item] = item.encryptedHashes := fun item =>
    Finset.union_empty _
  have hnew : ∀ (full : Prop) [Decidable full] (item' : BannedHashesItem),
      (if full then (items ++ [item'], none) else (items, some item') :
        List BannedHashesItem × Option BannedHashesItem).1 ++
      (if full then (items ++ [item'], none) else (items, some item') :
        List BannedHashesItem × Option BannedHashesItem).2.toList = items ++ [item'] := by
    intro full _ item'
    split <;> simp
  unfold packHash
  dsimp only
  rw [hnew, carried_append, carried_append, hone, Finset.union_assoc]
  congr 1
  cases item with
  | none => simp [carried]
  | some item =>
      rw [Option.getD_some, Option.toList_some, hone, Finset.insert_eq, Finset.union_comm]

theorem carried_foldl_packHash (sid : Nat) (hashes : List FileHash)
    (acc : List BannedHashesItem × Option BannedHashesItem) :
    carried ((hashes.foldl (packHash encryptHash p sid) acc).1 ++
        (hashes.foldl (packHash encryptHash p sid) acc).2.toList) =
      carried (acc.1 ++ acc.2.toList) ∪ (hashes.map encryptHash).toFinset := by
  induction hashes generalizing acc with
  | nil => simp
  | cons hash hashes ih =>
      rw [List.foldl_cons, ih, carried_packHash, List.map_cons, List.toFinset_cons,
        Finset.insert_eq, Finset.union_assoc]

theorem sendBanInfo_frame (encryptHash : FileHash → FileHash) (s : BanTables) (p : PeerId)
    (sid : Nat) : ∃ items, s.sendBanInfo encryptHash p sid =
      { s with sent := Function.update s.sent p items } ∧
      carried items = encryptedKeys encryptHash s.mPrimaryBanList := by
  refine ⟨_, rfl, ?_⟩
  rw [carried_foldl_packHash]
  simp [carried, encryptedKeys]

/-! ### The loops of the check -/

/-- The tables that the loops over the records leave alone. -/
structure SameLists (s t : BanTables) : Prop where
  primary : t.mPrimaryBanList = s.mPrimaryBanList
  list : t.mBannedFileList = s.mBannedFileList
  trust : t.mTrustFriendNodesForBannedFiles = s.mTrustFriendNodesForBannedFiles
  needsUpdate : t.mBannedFileListNeedsUpdate = s.mBannedFileListNeedsUpdate
  changed : t.mLastPrimaryBanListChangeTimeStamp = s.mLastPrimaryBanListChangeTimeStamp

theorem SameLists.refl (s : BanTables) : SameLists s s := ⟨rfl, rfl, rfl, rfl, rfl⟩

theorem SameLists.trans (hst : SameLists s t) (htu : SameLists t u) : SameLists s u :=
  ⟨htu.primary.trans hst.primary, htu.list.trans hst.list, htu.trust.trans hst.trust,
    htu.needsUpdate.trans hst.needsUpdate, htu.changed.trans hst.changed⟩

theorem SameLists.told_iff (hsame : SameLists s t) (hsent : t.sent p = s.sent p) :
    Told encryptHash t p ↔ Told encryptHash s p := by
  unfold Told
  rw [hsent, hsame.primary]

/-- Nothing about the peer has changed. -/
structure SamePeer (s t : BanTables) (p : PeerId) : Prop where
  record : t.mPeerBannedFiles[p]? = s.mPeerBannedFiles[p]?
  sent : t.sent p = s.sent p
  received : t.received p = s.received p

theorem SamePeer.refl (s : BanTables) (p : PeerId) : SamePeer s s p := ⟨rfl, rfl, rfl⟩

theorem SamePeer.trans (hst : SamePeer s t p) (htu : SamePeer t u p) : SamePeer s u p :=
  ⟨htu.record.trans hst.record, htu.sent.trans hst.sent, htu.received.trans hst.received⟩

/-- The peer has a record with the hashes of an entry. -/
def Keeps (entry : PeerBannedFilesEntry) (t : BanTables) (p : PeerId) : Prop :=
  ∃ entry', t.mPeerBannedFiles[p]? = some entry' ∧
    entry'.mBannedHashOfHash = entry.mBannedHashOfHash ∧ entry'.mSessionId = entry.mSessionId

/-- What becomes of the peer of a record. -/
structure Refreshed (encryptHash : FileHash → FileHash) (s t : BanTables) (online : Prop)
    (p : PeerId) (entry : PeerBannedFilesEntry) : Prop where
  dropped : ¬ online → t.mPeerBannedFiles[p]? = none ∧ t.received p = []
  kept : online → Keeps entry t p ∧ t.received p = s.received p
  told : online → entry.mLastSent < s.mLastPrimaryBanListChangeTimeStamp → Told encryptHash t p
  silent : ¬ entry.mLastSent < s.mLastPrimaryBanListChangeTimeStamp → t.sent p = s.sent p

variable (encryptHash now sessionId) in
theorem refreshRecord_spec (s : BanTables) (peers : Finset PeerId) {entry : PeerBannedFilesEntry}
    (hentry : s.mPeerBannedFiles[p]? = some entry) :
    SameLists s (refreshRecord encryptHash now sessionId (s, peers) (p, entry)).1 ∧
    (∀ q, q ≠ p → SamePeer s (refreshRecord encryptHash now sessionId (s, peers) (p, entry)).1 q) ∧
    (refreshRecord encryptHash now sessionId (s, peers) (p, entry)).2 = peers.erase p ∧
    Refreshed encryptHash s (refreshRecord encryptHash now sessionId (s, peers) (p, entry)).1
      (p ∈ peers) p entry := by
  unfold refreshRecord
  dsimp only
  split
  case isTrue hoffline =>
    refine ⟨⟨rfl, rfl, rfl, rfl, rfl⟩, fun q hq => ⟨?_, rfl, Function.update_of_ne hq _ _⟩,
      (Finset.erase_eq_of_notMem hoffline).symm, ?_⟩
    · exact OrderedMap.lookup_erase_ne _ (Ne.symm hq)
    · exact ⟨fun _ => ⟨by simp, Function.update_self _ _ _⟩, fun h => absurd h hoffline,
        fun h => absurd h hoffline, fun _ => rfl⟩
  case isFalse honline =>
    split
    case isTrue hdue =>
      obtain ⟨items, hsend, hcarried⟩ := sendBanInfo_frame encryptHash s p (sessionId p)
      rw [hsend]
      refine ⟨⟨rfl, rfl, rfl, rfl, rfl⟩, fun q hq => ⟨?_, Function.update_of_ne hq _ _, rfl⟩, rfl, ?_⟩
      · exact OrderedMap.lookup_insert_ne _ _ (Ne.symm hq)
      · refine ⟨fun h => absurd (not_not.mp honline) h,
          fun _ => ⟨⟨_, OrderedMap.lookup_insert_self _ _ _, rfl, rfl⟩, rfl⟩, fun _ _ => ?_,
          fun h => absurd hdue h⟩
        exact (congrArg carried (Function.update_self p items s.sent)).trans hcarried
    case isFalse hdone =>
      exact ⟨.refl s, fun q _ => .refl s q, rfl, fun h => absurd (not_not.mp honline) h,
        fun _ => ⟨⟨entry, hentry, rfl, rfl⟩, rfl⟩, fun _ h => absurd h hdone, fun _ => rfl⟩

theorem Refreshed.congr {online : Prop} {entry : PeerBannedFilesEntry}
    (hrefreshed : Refreshed encryptHash s t online p entry) (hlists : SameLists t u)
    (hpeer : SamePeer t u p) : Refreshed encryptHash s u online p entry where
  dropped hoffline := by
    rw [hpeer.record, hpeer.received]
    exact hrefreshed.dropped hoffline
  kept honline := by
    rw [Keeps, hpeer.record, hpeer.received]
    exact hrefreshed.kept honline
  told honline hdue := (hlists.told_iff hpeer.sent).mpr (hrefreshed.told honline hdue)
  silent hdone := hpeer.sent.trans (hrefreshed.silent hdone)

theorem Refreshed.of_samePeer {online : Prop} {entry : PeerBannedFilesEntry}
    (hrefreshed : Refreshed encryptHash s t online p entry) (hlists : SameLists u s)
    (hpeer : SamePeer u s p) : Refreshed encryptHash u t online p entry where
  dropped := hrefreshed.dropped
  kept honline := ⟨(hrefreshed.kept honline).1, (hrefreshed.kept honline).2.trans hpeer.received⟩
  told honline hdue := hrefreshed.told honline (hlists.changed ▸ hdue)
  silent hdone := (hrefreshed.silent (hlists.changed ▸ hdone)).trans hpeer.sent

variable (encryptHash now sessionId) in
theorem foldl_refreshRecord_spec {records : List (PeerId × PeerBannedFilesEntry)} (s : BanTables)
    (peers : Finset PeerId) (hnodup : (records.map Prod.fst).Nodup)
    (hrecords : ∀ record ∈ records, s.mPeerBannedFiles[record.1]? = some record.2) :
    ∃ t, records.foldl (refreshRecord encryptHash now sessionId) (s, peers) =
        (t, peers \ (records.map Prod.fst).toFinset) ∧ SameLists s t ∧
      (∀ q, q ∉ records.map Prod.fst → SamePeer s t q) ∧
      ∀ record ∈ records, Refreshed encryptHash s t (record.1 ∈ peers) record.1 record.2 := by
  induction records generalizing s peers with
  | nil => exact ⟨s, by simp, .refl s, fun q _ => .refl s q, fun _ h => absurd h List.not_mem_nil⟩
  | cons record records ih =>
      obtain ⟨p, entry⟩ := record
      rw [List.map_cons, List.nodup_cons] at hnodup
      obtain ⟨hfresh, hnodup⟩ := hnodup
      obtain ⟨hlists, hother, hpeers, hrefreshed⟩ := refreshRecord_spec encryptHash now sessionId s
        peers (hrecords _ List.mem_cons_self)
      rw [List.foldl_cons]
      generalize refreshRecord encryptHash now sessionId (s, peers) (p, entry) = mid
        at hlists hother hpeers hrefreshed ⊢
      obtain ⟨m, peers'⟩ := mid
      dsimp only at hlists hother hpeers hrefreshed ⊢
      subst hpeers
      have hne : ∀ record ∈ records, record.1 ≠ p := fun record hmem heq =>
        hfresh (List.mem_map.mpr ⟨record, hmem, heq⟩)
      obtain ⟨t, hfold, hlists', hother', hrefreshed'⟩ := ih m (peers.erase p) hnodup
        fun record hmem => ((hother _ (hne record hmem)).record).trans
          (hrecords record (List.mem_cons_of_mem _ hmem))
      refine ⟨t, hfold.trans (congrArg (t, ·) ?_), hlists.trans hlists', fun q hq => ?_,
        fun record hmem => ?_⟩
      · ext q
        simp only [Finset.mem_sdiff, Finset.mem_erase, List.map_cons, List.toFinset_cons,
          Finset.mem_insert, not_or]
        tauto
      · rw [List.map_cons, List.mem_cons, not_or] at hq
        exact (hother q hq.1).trans (hother' q hq.2)
      · obtain rfl | hmem := List.mem_cons.mp hmem
        · exact hrefreshed.congr hlists' (hother' p hfresh)
        · have honline : record.1 ∈ peers.erase p ↔ record.1 ∈ peers := by
            rw [Finset.mem_erase]
            exact and_iff_right (hne record hmem)
          rw [← honline]
          exact (hrefreshed' record hmem).of_samePeer hlists (hother _ (hne record hmem))

variable (encryptHash now sessionId) in
theorem addRecord_spec (s : BanTables) (p : PeerId) :
    SameLists s (addRecord encryptHash now sessionId s p) ∧
    (∀ q, q ≠ p → SamePeer s (addRecord encryptHash now sessionId s p) q) ∧
    Told encryptHash (addRecord encryptHash now sessionId s p) p ∧
    Keeps ((s.mPeerBannedFiles[p]?).getD .default) (addRecord encryptHash now sessionId s p) p ∧
    (addRecord encryptHash now sessionId s p).received p = s.received p := by
  obtain ⟨items, hsend, hcarried⟩ := sendBanInfo_frame encryptHash s p (sessionId p)
  unfold addRecord
  rw [hsend]
  refine ⟨⟨rfl, rfl, rfl, rfl, rfl⟩, fun q hq => ⟨?_, Function.update_of_ne hq _ _, rfl⟩, ?_,
    ⟨_, OrderedMap.lookup_insert_self _ _ _, rfl, rfl⟩, rfl⟩
  · exact OrderedMap.lookup_insert_ne _ _ (Ne.symm hq)
  · exact (congrArg carried (Function.update_self p items s.sent)).trans hcarried

variable (encryptHash now sessionId) in
theorem foldl_addRecord_spec (peers : List PeerId) (s : BanTables) (hnodup : peers.Nodup) :
    SameLists s (peers.foldl (addRecord encryptHash now sessionId) s) ∧
    (∀ q, q ∉ peers → SamePeer s (peers.foldl (addRecord encryptHash now sessionId) s) q) ∧
    ∀ p ∈ peers, Told encryptHash (peers.foldl (addRecord encryptHash now sessionId) s) p ∧
      Keeps ((s.mPeerBannedFiles[p]?).getD .default)
        (peers.foldl (addRecord encryptHash now sessionId) s) p ∧
      (peers.foldl (addRecord encryptHash now sessionId) s).received p = s.received p := by
  induction peers generalizing s with
  | nil => exact ⟨.refl s, fun q _ => .refl s q, fun _ h => absurd h List.not_mem_nil⟩
  | cons p peers ih =>
      rw [List.nodup_cons] at hnodup
      obtain ⟨hlists, hother, htold, hkeeps, hreceived⟩ := addRecord_spec encryptHash now sessionId s p
      obtain ⟨hlists', hother', hadded⟩ := ih (addRecord encryptHash now sessionId s p) hnodup.2
      rw [List.foldl_cons]
      refine ⟨hlists.trans hlists', fun q hq => ?_, fun q hq => ?_⟩
      · rw [List.mem_cons, not_or] at hq
        exact (hother q hq.1).trans (hother' q hq.2)
      · obtain rfl | hq := List.mem_cons.mp hq
        · obtain ⟨hrecord, hsent, hsame⟩ := hother' q hnodup.1
          refine ⟨(hlists'.told_iff hsent).mpr htold, ?_, hsame.trans hreceived⟩
          rw [Keeps, hrecord]
          exact hkeeps
        · have hne : q ≠ p := fun heq => hnodup.1 (heq ▸ hq)
          obtain ⟨htold', hkeeps', hreceived'⟩ := hadded q hq
          rw [(hother q hne).record] at hkeeps'
          exact ⟨htold', hkeeps', hreceived'.trans (hother q hne).received⟩

/-! ### What the tables should say -/

/-- The hash is on the user's list, or the hash of a hash there. -/
def ListedByUser (encryptHash : FileHash → FileHash) (s : BanTables) (hash : FileHash) : Prop :=
  hash ∈ s.mPrimaryBanList ∨ ∃ file, file ∈ s.mPrimaryBanList ∧ encryptHash file = hash

def ListedByFriend (s : BanTables) (p : PeerId) (hash : FileHash) : Prop :=
  p ∈ s.mPeerBannedFiles ∧ hash ∈ latestSession (s.received p)

def Listed (encryptHash : FileHash → FileHash) (s : BanTables) (hash : FileHash) : Prop :=
  ListedByUser encryptHash s hash ∨
    s.mTrustFriendNodesForBannedFiles = true ∧ ∃ p, ListedByFriend s p hash

/-- The list of banned hashes and what the friends online were told are those of the tables. -/
structure Agrees (encryptHash : FileHash → FileHash) (s : BanTables) (online : List PeerId) :
    Prop where
  list : ∀ hash, hash ∈ s.mBannedFileList ↔ Listed encryptHash s hash
  told : ∀ p ∈ online, Told encryptHash s p

/-- The record holds the latest session. -/
def HoldsSession (items : List BannedHashesItem) (entry : PeerBannedFilesEntry) : Prop :=
  entry.mBannedHashOfHash = latestSession items ∧
    ∀ item ∈ items.head?, entry.mSessionId = item.sessionId

/-- A friend who was not told of the list as it is has a record from before its last change. -/
def Due (encryptHash : FileHash → FileHash) (s : BanTables) (p : PeerId) (lastSent : Int) : Prop :=
  lastSent < s.mLastPrimaryBanListChangeTimeStamp ∨ Told encryptHash s p

structure Sound (encryptHash : FileHash → FileHash) (s : BanTables) : Prop where
  list : s.mBannedFileListNeedsUpdate = false →
    ∀ hash, hash ∈ s.mBannedFileList ↔ Listed encryptHash s hash
  due : ∀ p entry, s.mPeerBannedFiles[p]? = some entry → Due encryptHash s p entry.mLastSent
  session : ∀ p entry, s.mPeerBannedFiles[p]? = some entry → HoldsSession (s.received p) entry
  unheard : ∀ p, s.mPeerBannedFiles[p]? = none → s.received p = []

theorem sound_new (needsUpdate : Bool) : Sound encryptHash (new needsUpdate) where
  list _ hash := by simp [new, Listed, ListedByUser, ListedByFriend]
  due p entry hentry := by simp [new] at hentry
  session p entry hentry := by simp [new] at hentry
  unheard p _ := rfl

theorem holdsSession_default : HoldsSession [] .default := ⟨rfl, fun _ h => by simp at h⟩

theorem Sound.session_getD (hs : Sound encryptHash s) (p : PeerId) :
    HoldsSession (s.received p) ((s.mPeerBannedFiles[p]?).getD .default) := by
  cases hentry : s.mPeerBannedFiles[p]? with
  | none =>
      rw [hs.unheard p hentry]
      exact holdsSession_default
  | some entry => exact hs.session p entry hentry

theorem mem_primary_keys : hash ∈ s.mPrimaryBanList.toList.map Prod.fst ↔ hash ∈ s.mPrimaryBanList := by
  rw [List.mem_map]
  constructor
  · rintro ⟨⟨file, entry⟩, hmem, rfl⟩
    exact Std.ExtTreeMap.mem_iff_isSome_getElem?.mpr
      (Option.isSome_iff_exists.mpr ⟨entry, (OrderedMap.mem_toList _).mp hmem⟩)
  · intro hmem
    exact ⟨(hash, s.mPrimaryBanList[hash]), (OrderedMap.mem_toList _).mpr
      (Std.ExtTreeMap.getElem?_eq_some_getElem hmem), rfl⟩

theorem mem_foldl_union {records : List (PeerId × PeerBannedFilesEntry)} (list : Finset FileHash) :
    hash ∈ records.foldl (fun list record => list ∪ record.2.mBannedHashOfHash) list ↔
      hash ∈ list ∨ ∃ record ∈ records, hash ∈ record.2.mBannedHashOfHash := by
  induction records generalizing list with
  | nil => simp
  | cons record records ih =>
      rw [List.foldl_cons, ih, Finset.mem_union, or_assoc, List.exists_mem_cons_iff]

theorem mem_foldl_insert {hashes : List FileHash} (list : Finset FileHash) :
    hash ∈ hashes.foldl (fun list hash => insert (encryptHash hash) (insert hash list)) list ↔
      hash ∈ list ∨ hash ∈ hashes ∨ ∃ file ∈ hashes, encryptHash file = hash := by
  induction hashes generalizing list with
  | nil => simp
  | cons file hashes ih =>
      rw [List.foldl_cons, ih, Finset.mem_insert, Finset.mem_insert, List.exists_mem_cons_iff,
        List.mem_cons, eq_comm]
      tauto

variable (encryptHash hash) in
/-- When the list is made, it is what the tables say. -/
theorem mem_updateList (hs : ∀ p entry, s.mPeerBannedFiles[p]? = some entry →
      HoldsSession (s.received p) entry) (hneeds : s.mBannedFileListNeedsUpdate = true) :
    hash ∈ (s.updateList encryptHash).mBannedFileList ↔ Listed encryptHash s hash := by
  have hfriends : (∃ record ∈ s.mPeerBannedFiles.toList, hash ∈ record.2.mBannedHashOfHash) ↔
      ∃ p, ListedByFriend s p hash := by
    constructor
    · rintro ⟨⟨p, entry⟩, hmem, hhash⟩
      have hentry := (OrderedMap.mem_toList _).mp hmem
      refine ⟨p, Std.ExtTreeMap.mem_iff_isSome_getElem?.mpr (by rw [hentry]; rfl), ?_⟩
      rw [← (hs p entry hentry).1]
      exact hhash
    · rintro ⟨p, hmem, hhash⟩
      have hentry := Std.ExtTreeMap.getElem?_eq_some_getElem hmem
      refine ⟨_, (OrderedMap.mem_toList _).mpr hentry, ?_⟩
      rw [(hs p _ hentry).1]
      exact hhash
  rw [updateList, if_pos hneeds]
  dsimp only
  rw [mem_foldl_insert]
  simp only [mem_primary_keys]
  unfold Listed ListedByUser
  rw [or_comm]
  refine or_congr Iff.rfl ?_
  split
  case isTrue htrust => rw [mem_foldl_union, hfriends]; simp [htrust]
  case isFalse htrust => simp [htrust]

/-! ### The check -/

/-- What a check does before it makes the list. -/
structure Checked (encryptHash : FileHash → FileHash) (s u : BanTables) (online : List PeerId) :
    Prop where
  lists : SameLists s u
  told : ∀ p ∈ online, Told encryptHash u p
  present : ∀ p ∈ online, ∃ entry, u.mPeerBannedFiles[p]? = some entry ∧
    HoldsSession (u.received p) entry ∧ u.received p = s.received p
  absent : ∀ p, p ∉ online → u.mPeerBannedFiles[p]? = none ∧ u.received p = []

theorem Keeps.holdsSession {entry : PeerBannedFilesEntry} {items : List BannedHashesItem}
    (hkeeps : Keeps entry t p) (hholds : HoldsSession items entry) :
    ∃ entry', t.mPeerBannedFiles[p]? = some entry' ∧ HoldsSession items entry' := by
  obtain ⟨entry', hentry', hhashes, hsession⟩ := hkeeps
  refine ⟨entry', hentry', hhashes.trans hholds.1, fun item hitem => ?_⟩
  exact hsession.trans (hholds.2 item hitem)

theorem Sound.checked (hs : Sound encryptHash s) (online : List PeerId) (now : Int)
    (sessionId : PeerId → Nat) :
    ∃ u, s.checkSendBannedFilesInfo encryptHash online now sessionId = u.updateList encryptHash ∧
      Checked encryptHash s u online := by
  obtain ⟨m, hfold, hlists, hother, hrefreshed⟩ := foldl_refreshRecord_spec encryptHash now sessionId
    s online.toFinset (OrderedMap.nodup_keys_toList s.mPeerBannedFiles)
    fun record hmem => (OrderedMap.mem_toList _).mp hmem
  have hkeys : ∀ p, p ∈ s.mPeerBannedFiles.toList.map Prod.fst ↔
      ∃ entry, s.mPeerBannedFiles[p]? = some entry := by
    intro p
    rw [List.mem_map]
    constructor
    · rintro ⟨⟨q, entry⟩, hmem, rfl⟩
      exact ⟨entry, (OrderedMap.mem_toList _).mp hmem⟩
    · rintro ⟨entry, hentry⟩
      exact ⟨(p, entry), (OrderedMap.mem_toList _).mpr hentry, rfl⟩
  have hknown : ∀ p entry, s.mPeerBannedFiles[p]? = some entry →
      Refreshed encryptHash s m (p ∈ online) p entry := by
    intro p entry hentry
    have := hrefreshed (p, entry) ((OrderedMap.mem_toList _).mpr hentry)
    rwa [List.mem_toFinset] at this
  have hstranger : ∀ p, s.mPeerBannedFiles[p]? = none → SamePeer s m p := fun p hnone =>
    hother p (mt (hkeys p).mp (by rintro ⟨entry, hentry⟩; simp [hnone] at hentry))
  obtain ⟨hlists', hother', hadded⟩ := foldl_addRecord_spec encryptHash now sessionId
    (online.dedup.filter
      (· ∈ online.toFinset \ (s.mPeerBannedFiles.toList.map Prod.fst).toFinset)) m
    (online.nodup_dedup.filter _)
  have hnew : ∀ p, p ∈ online.dedup.filter
      (· ∈ online.toFinset \ (s.mPeerBannedFiles.toList.map Prod.fst).toFinset) ↔
      p ∈ online ∧ s.mPeerBannedFiles[p]? = none := by
    intro p
    rw [List.mem_filter, decide_eq_true_eq, Finset.mem_sdiff, List.mem_toFinset, List.mem_toFinset,
      List.mem_dedup, hkeys, ← Option.ne_none_iff_exists', not_not]
    tauto
  refine ⟨_, by rw [checkSendBannedFilesInfo, hfold], hlists.trans hlists', fun p hp => ?_,
    fun p hp => ?_, fun p hp => ?_⟩
  · cases hentry : s.mPeerBannedFiles[p]? with
    | none => exact (hadded p ((hnew p).mpr ⟨hp, hentry⟩)).1
    | some entry =>
        have hkept := hother' p (mt (hnew p).mp (by simp [hentry]))
        rw [hlists'.told_iff hkept.sent]
        by_cases hdue : entry.mLastSent < s.mLastPrimaryBanListChangeTimeStamp
        · exact (hknown p entry hentry).told hp hdue
        · rw [hlists.told_iff ((hknown p entry hentry).silent hdue)]
          exact (hs.due p entry hentry).resolve_left hdue
  · cases hentry : s.mPeerBannedFiles[p]? with
    | none =>
        obtain ⟨-, hkeeps, hreceived⟩ := hadded p ((hnew p).mpr ⟨hp, hentry⟩)
        have hsame := hstranger p hentry
        rw [hreceived, hsame.received]
        rw [hsame.record] at hkeeps
        obtain ⟨entry', hentry', hholds⟩ := hkeeps.holdsSession (hs.session_getD p)
        exact ⟨entry', hentry', hholds, rfl⟩
    | some entry =>
        have hkept := hother' p (mt (hnew p).mp (by simp [hentry]))
        obtain ⟨hkeeps, hreceived⟩ := (hknown p entry hentry).kept hp
        rw [hkept.record, hkept.received, hreceived]
        obtain ⟨entry', hentry', hholds⟩ := hkeeps.holdsSession (hs.session p entry hentry)
        exact ⟨entry', hentry', hholds, rfl⟩
  · have hkept := hother' p (mt (hnew p).mp fun h => hp h.1)
    rw [hkept.record, hkept.received]
    cases hentry : s.mPeerBannedFiles[p]? with
    | none =>
        have hsame := hstranger p hentry
        exact ⟨hsame.record.trans hentry, hsame.received.trans (hs.unheard p hentry)⟩
    | some entry => exact (hknown p entry hentry).dropped hp

theorem Checked.listedByFriend_iff {online : List PeerId} (hs : Sound encryptHash s)
    (hchecked : Checked encryptHash s u online) :
    ListedByFriend u p hash ↔ p ∈ online ∧ ListedByFriend s p hash := by
  unfold ListedByFriend
  by_cases hp : p ∈ online
  · obtain ⟨entry, hentry, -, hreceived⟩ := hchecked.present p hp
    have hmem : p ∈ u.mPeerBannedFiles :=
      Std.ExtTreeMap.mem_iff_isSome_getElem?.mpr (by rw [hentry]; rfl)
    rw [hreceived, and_iff_right hmem, and_iff_right hp]
    refine (and_iff_right_of_imp fun hhash => ?_).symm
    rw [Std.ExtTreeMap.mem_iff_isSome_getElem?]
    by_contra hnone
    rw [hs.unheard p (Option.not_isSome_iff_eq_none.mp hnone)] at hhash
    exact absurd hhash (Finset.notMem_empty _)
  · obtain ⟨hnone, -⟩ := hchecked.absent p hp
    rw [Std.ExtTreeMap.mem_iff_isSome_getElem?, hnone]
    simp [hp]

theorem updateList_frame (encryptHash : FileHash → FileHash) (s : BanTables) : ∃ list, s.updateList encryptHash =
    { s with mBannedFileList := list, mBannedFileListNeedsUpdate := false } ∧
    (s.mBannedFileListNeedsUpdate = false → list = s.mBannedFileList) := by
  by_cases hneeds : s.mBannedFileListNeedsUpdate = true
  · rw [updateList, if_pos hneeds]
    exact ⟨_, rfl, fun h => absurd (h.symm.trans hneeds) (by decide)⟩
  · rw [updateList, if_neg hneeds]
    refine ⟨s.mBannedFileList, ?_, fun _ => rfl⟩
    rw [← Bool.eq_false_iff.mpr hneeds]

/-- What only friends who have left list is forgotten when the list is made again, and nothing else
lets it be. -/
def NothingForgotten (encryptHash : FileHash → FileHash) (s : BanTables) (online : List PeerId) :
    Prop :=
  s.mBannedFileListNeedsUpdate = false → s.mTrustFriendNodesForBannedFiles = true →
    ∀ p hash, p ∉ online → ListedByFriend s p hash →
      ListedByUser encryptHash s hash ∨ ∃ q ∈ online, ListedByFriend s q hash

theorem Checked.listed_iff {online : List PeerId} (hs : Sound encryptHash s)
    (hchecked : Checked encryptHash s u online) :
    Listed encryptHash u hash ↔ ListedByUser encryptHash s hash ∨
      s.mTrustFriendNodesForBannedFiles = true ∧ ∃ q ∈ online, ListedByFriend s q hash := by
  unfold Listed ListedByUser
  rw [hchecked.lists.primary, hchecked.lists.trust]
  simp only [hchecked.listedByFriend_iff hs]

theorem Sound.agrees_iff (hs : Sound encryptHash s) (online : List PeerId) (now : Int)
    (sessionId : PeerId → Nat) :
    Agrees encryptHash (s.checkSendBannedFilesInfo encryptHash online now sessionId) online ↔
      NothingForgotten encryptHash s online := by
  obtain ⟨u, hcheck, hchecked⟩ := hs.checked online now sessionId
  have hsession : ∀ p entry, u.mPeerBannedFiles[p]? = some entry →
      HoldsSession (u.received p) entry := by
    intro p entry hentry
    by_cases hp : p ∈ online
    · obtain ⟨entry', hentry', hholds, -⟩ := hchecked.present p hp
      obtain rfl := Option.some.inj (hentry'.symm.trans hentry)
      exact hholds
    · exact absurd (hentry.symm.trans (hchecked.absent p hp).1) (Option.some_ne_none _)
  have hmade := fun hash => mem_updateList encryptHash hash hsession
  obtain ⟨list, hupdate, hkept⟩ := updateList_frame encryptHash u
  rw [hupdate] at hmade
  rw [hcheck, hupdate]
  have hneeds := hchecked.lists.needsUpdate
  constructor
  · intro hagrees hfalse htrust p hash hp hfriend
    have hlisted : Listed encryptHash u hash := by
      rw [← show hash ∈ list ↔ Listed encryptHash u hash from hagrees.list hash,
        hkept (hneeds.trans hfalse), hchecked.lists.list]
      exact (hs.list hfalse hash).mpr (.inr ⟨htrust, p, hfriend⟩)
    exact ((hchecked.listed_iff hs).mp hlisted).imp id And.right
  · intro hforgotten
    refine ⟨fun hash => ?_, hchecked.told⟩
    cases hcase : s.mBannedFileListNeedsUpdate with
    | true => exact hmade hash (hneeds.trans hcase)
    | false =>
        have hlist : hash ∈ list ↔ Listed encryptHash s hash := by
          rw [hkept (hneeds.trans hcase), hchecked.lists.list]
          exact hs.list hcase hash
        refine hlist.trans (Iff.trans ?_ (hchecked.listed_iff hs).symm)
        constructor
        · rintro (huser | ⟨htrust, p, hfriend⟩)
          · exact .inl huser
          · by_cases hp : p ∈ online
            · exact .inr ⟨htrust, p, hp, hfriend⟩
            · exact (hforgotten hcase htrust p hash hp hfriend).imp id fun h => ⟨htrust, h⟩
        · rintro (huser | ⟨htrust, p, -, hfriend⟩)
          · exact .inl huser
          · exact .inr ⟨htrust, p, hfriend⟩

/-! ### Runs -/

/-- Every friend with a record was last sent something before, or was told of this list. -/
def InTime (encryptHash : FileHash → FileHash) (s : BanTables)
    (primary : OrderedMap FileHash BannedFileEntry) (now : Int) : Prop :=
  ∀ p entry, s.mPeerBannedFiles[p]? = some entry →
    entry.mLastSent < now ∨ carried (s.sent p) = encryptedKeys encryptHash primary

/-- The clock tells changes from what was sent before, a record that an item makes is from before the
last change, and what the dropped records list is listed elsewhere. -/
def Meets (encryptHash : FileHash → FileHash) (s : BanTables) : BanOp → Prop
  | .banFile hash filename size stamp now =>
      ((s.mPrimaryBanList[hash]?).getD .default).banTimeStamp = 0 →
        InTime encryptHash s (s.mPrimaryBanList.insert hash ⟨size, filename, stamp⟩) now
  | .unbanFile hash now => InTime encryptHash s (s.mPrimaryBanList.erase hash) now
  | .handleBannedFilesInfo item =>
      s.mPeerBannedFiles[item.peerId]? = none → Due encryptHash s item.peerId 0
  | .setTrustFriendNodesForBannedFiles _ => True
  | .checkSendBannedFilesInfo online _ _ => NothingForgotten encryptHash s online

theorem Sound.check (hs : Sound encryptHash s) {online : List PeerId}
    (hforgotten : NothingForgotten encryptHash s online) :
    Sound encryptHash (s.checkSendBannedFilesInfo encryptHash online now sessionId) := by
  have hagrees := (hs.agrees_iff online now sessionId).mpr hforgotten
  obtain ⟨u, hcheck, hchecked⟩ := hs.checked online now sessionId
  obtain ⟨list, hupdate, -⟩ := updateList_frame encryptHash u
  rw [hcheck, hupdate] at hagrees ⊢
  have honline : ∀ p entry, u.mPeerBannedFiles[p]? = some entry → p ∈ online := by
    intro p entry hentry
    by_contra hp
    exact absurd (hentry.symm.trans (hchecked.absent p hp).1) (Option.some_ne_none _)
  constructor
  case list => exact fun _ => hagrees.list
  case due => exact fun p entry hentry => .inr (hagrees.told p (honline p entry hentry))
  case session =>
    intro p entry hentry
    obtain ⟨entry', hentry', hholds, -⟩ := hchecked.present p (honline p entry hentry)
    obtain rfl := Option.some.inj (hentry'.symm.trans hentry)
    exact hholds
  case unheard =>
    intro p hnone
    by_cases hp : p ∈ online
    · obtain ⟨entry, hentry, -⟩ := hchecked.present p hp
      exact absurd (hentry.symm.trans hnone) (Option.some_ne_none _)
    · exact (hchecked.absent p hp).2

theorem HoldsSession.receive {items : List BannedHashesItem} {entry : PeerBannedFilesEntry}
    (hholds : HoldsSession items entry) (item : BannedHashesItem) :
    HoldsSession (item :: items) { entry with
      mBannedHashOfHash := (if entry.mSessionId ≠ item.sessionId then ∅ else
        entry.mBannedHashOfHash) ∪ item.encryptedHashes
      mSessionId := item.sessionId } := by
  obtain ⟨hhashes, hsession⟩ := hholds
  refine ⟨?_, fun item' hitem => by cases hitem; rfl⟩
  have hcons : ∀ items, carried (item :: items) = item.encryptedHashes ∪ carried items := fun _ => rfl
  rw [latestSession, hcons, hhashes, Finset.union_comm]
  cases items with
  | nil => split <;> rfl
  | cons first rest =>
      have hfirst := hsession first rfl
      split
      case isTrue hne =>
        rw [List.takeWhile_cons_of_neg (by simpa [← hfirst] using hne)]
        rfl
      case isFalse heq =>
        rw [not_not, hfirst] at heq
        rw [latestSession, heq, List.takeWhile_cons_of_pos (by simpa using heq)]

theorem Sound.receive (hs : Sound encryptHash s) (item : BannedHashesItem)
    (hdue : s.mPeerBannedFiles[item.peerId]? = none → Due encryptHash s item.peerId 0) :
    Sound encryptHash (s.handleBannedFilesInfo item) := by
  have hhere := (hs.session_getD item.peerId).receive item
  have hdue' : Due encryptHash s item.peerId
      ((s.mPeerBannedFiles[item.peerId]?).getD .default).mLastSent := by
    cases hentry : s.mPeerBannedFiles[item.peerId]? with
    | none => exact hdue hentry
    | some entry => exact hs.due _ entry hentry
  have hrecord : ∀ p entry, (s.handleBannedFilesInfo item).mPeerBannedFiles[p]? = some entry →
      p = item.peerId ∨ s.mPeerBannedFiles[p]? = some entry := by
    intro p entry hentry
    by_cases hp : p = item.peerId
    · exact .inl hp
    · exact .inr ((OrderedMap.lookup_insert_ne _ _ (Ne.symm hp)).symm.trans hentry)
  have hself : ∀ entry, (s.handleBannedFilesInfo item).mPeerBannedFiles[item.peerId]? = some entry →
      entry = _ := fun entry hentry =>
    (Option.some.inj ((OrderedMap.lookup_insert_self _ _ _).symm.trans hentry)).symm
  constructor
  case list => exact fun h => absurd h (by simp [handleBannedFilesInfo])
  case due =>
    intro p entry hentry
    obtain rfl | hold := hrecord p entry hentry
    · rw [hself entry hentry]
      exact hdue'
    · exact hs.due p entry hold
  case session =>
    intro p entry hentry
    obtain rfl | hold := hrecord p entry hentry
    · rw [hself entry hentry]
      exact (congrArg (HoldsSession · _) (Function.update_self _ _ s.received)).mpr hhere
    · by_cases hp : p = item.peerId
      · subst hp
        rw [hself entry hentry]
        exact (congrArg (HoldsSession · _) (Function.update_self _ _ s.received)).mpr hhere
      · exact (congrArg (HoldsSession · entry) (Function.update_of_ne hp _ s.received)).mpr
          (hs.session p entry hold)
  case unheard =>
    intro p hnone
    by_cases hp : p = item.peerId
    · subst hp
      exact absurd ((OrderedMap.lookup_insert_self _ _ _).symm.trans hnone) (Option.some_ne_none _)
    · exact (Function.update_of_ne hp _ s.received).trans
        (hs.unheard p ((OrderedMap.lookup_insert_ne _ _ (Ne.symm hp)).symm.trans hnone))

theorem Sound.step {op : BanOp} (hs : Sound encryptHash s) (hmeets : Meets encryptHash s op)
    (hstep : s.step encryptHash op = some t) : Sound encryptHash t := by
  cases op with
  | banFile hash filename size stamp now =>
      cases hstep
      unfold banFile
      dsimp only
      split
      case isTrue hzero =>
        exact ⟨fun h => absurd h (by simp), hmeets hzero, hs.session, hs.unheard⟩
      case isFalse => exact hs
  | unbanFile hash now =>
      cases hstep
      exact ⟨fun h => absurd h (by simp [unbanFile]), hmeets, hs.session, hs.unheard⟩
  | handleBannedFilesInfo item =>
      cases hstep
      exact hs.receive item hmeets
  | setTrustFriendNodesForBannedFiles b =>
      cases hstep
      refine ⟨fun hneeds => ?_, hs.due, hs.session, hs.unheard⟩
      rw [setTrustFriendNodesForBannedFiles] at hneeds ⊢
      dsimp only at hneeds ⊢
      obtain ⟨hfalse, hsame⟩ := Bool.or_eq_false_iff.mp hneeds
      obtain rfl : b = s.mTrustFriendNodesForBannedFiles := by simpa using hsame
      exact hs.list hfalse
  | checkSendBannedFilesInfo online now sessionId =>
      cases hstep
      exact hs.check hmeets

/-- **Tables of banned files agree.** In every run whose steps meet the conditions, a check leaves the
tables in agreement if and only if it meets its own. -/
theorem agrees_iff_of_reaches {needsUpdate : Bool}
    (hreach : Reaches (step encryptHash) (Meets encryptHash) (new needsUpdate) s)
    (online : List PeerId) (now : Int) (sessionId : PeerId → Nat) :
    Agrees encryptHash (s.checkSendBannedFilesInfo encryptHash online now sessionId) online ↔
      NothingForgotten encryptHash s online :=
  (Reaches.invariant (Sound encryptHash) (fun _ _ _ hs hmeets hstep => hs.step hmeets hstep)
    (sound_new needsUpdate) hreach).agrees_iff online now sessionId

/-- A hash function for examples. -/
def complementHash (hash : FileHash) : FileHash :=
  ⟨hash.1.map (255 - ·), by rw [List.length_map, hash.2]⟩

def bannedHash : FileHash := ⟨List.replicate 20 7, List.length_replicate⟩

def onlyFriend : PeerId := ⟨List.replicate 16 3, List.length_replicate⟩

/-- A file is banned in the second in which the friend was sent the list, and another check follows. -/
def sameSecond : BanTables :=
  (((new false).checkSendBannedFilesInfo complementHash [onlyFriend] 5 fun _ => 1).banFile
    complementHash bannedHash [97] 1 5 5).checkSendBannedFilesInfo complementHash [onlyFriend] 6
    fun _ => 2

theorem agrees_counterexample : Reaches (step complementHash) (fun _ _ => True) (new false) sameSecond ∧
    ¬ Agrees complementHash sameSecond [onlyFriend] := by
  constructor
  · exact (((Reaches.refl _).next (.checkSendBannedFilesInfo [onlyFriend] 5 fun _ => 1) trivial
      rfl).next (.banFile bannedHash [97] 1 5 5) trivial rfl).next
      (.checkSendBannedFilesInfo [onlyFriend] 6 fun _ => 2) trivial rfl
  · intro hagrees
    have htold : carried (sameSecond.sent onlyFriend) =
        encryptedKeys complementHash sameSecond.mPrimaryBanList :=
      hagrees.told onlyFriend List.mem_cons_self
    exact absurd htold (by decide)

theorem agrees_afterBan :
    Agrees complementHash (((new false).banFile complementHash bannedHash [97] 1 5 5
      ).checkSendBannedFilesInfo complementHash [onlyFriend] 6 fun _ => 2) [onlyFriend] := by
  have hreach : Reaches (step complementHash) (Meets complementHash) (new false)
      ((new false).banFile complementHash bannedHash [97] 1 5 5) :=
    (Reaches.refl _).next (.banFile bannedHash [97] 1 5 5)
      (fun _ p entry hentry => by simp [new] at hentry) rfl
  refine (agrees_iff_of_reaches hreach [onlyFriend] 6 fun _ => 2).mpr fun hneeds => ?_
  exact absurd hneeds (by simp [banFile, new, BannedFileEntry.default])

end RetroShare.FileSharing.BanTables
