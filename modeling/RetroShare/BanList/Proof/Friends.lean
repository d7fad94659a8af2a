import RetroShare.BanList.Proof.Isolation

/-!
# Friends' items over whole runs

Two services have the same view if they differ in friends' reports only, and in what follows from
these without deciding anything. Calls of the node keep that, items of friends do as well if they
keep apart, and services with the same view answer alike.
-/

namespace RetroShare.BanList

open Noninterference

structure SameView (s t : Service) : Prop where
  ownId : s.ownId = t.ownId
  limit : s.mAutoRangeLimit = t.mAutoRangeLimit
  autoRanges : s.mAutoRangeIps = t.mAutoRangeIps
  filtering : s.mIPFilteringEnabled = t.mIPFilteringEnabled
  dht : s.mIPDHTGatheringEnabled = t.mIPDHTGatheringEnabled
  white : s.mWhiteListedRanges = t.mWhiteListedRanges
  ranges : ∀ k : Ipv4, s.mBanRanges[k]?.map (·.reason) = t.mBanRanges[k]?.map (·.reason)
  own : s.mBanSources[s.ownId]? = t.mBanSources[t.ownId]?
  banned : ∀ addr, OwnIn s.mBanSet addr ↔ OwnIn t.mBanSet addr

theorem SameView.refl (s : Service) : SameView s s :=
  ⟨rfl, rfl, rfl, rfl, rfl, rfl, fun _ => rfl, rfl, fun _ => Iff.rfl⟩

theorem SameView.symm {s t : Service} (hview : SameView s t) : SameView t s where
  ownId := hview.ownId.symm
  limit := hview.limit.symm
  autoRanges := hview.autoRanges.symm
  filtering := hview.filtering.symm
  dht := hview.dht.symm
  white := hview.white.symm
  ranges k := (hview.ranges k).symm
  own := hview.own.symm
  banned addr := (hview.banned addr).symm

theorem SameView.trans {s t u : Service} (hst : SameView s t) (htu : SameView t u) :
    SameView s u where
  ownId := hst.ownId.trans htu.ownId
  limit := hst.limit.trans htu.limit
  autoRanges := hst.autoRanges.trans htu.autoRanges
  filtering := hst.filtering.trans htu.filtering
  dht := hst.dht.trans htu.dht
  white := hst.white.trans htu.white
  ranges k := (hst.ranges k).trans (htu.ranges k)
  own := hst.own.trans htu.own
  banned addr := (hst.banned addr).trans (htu.banned addr)

/-! ### Answers -/

theorem isSome_bannedRange (service : Service) (k : Ipv4) :
    (service.bannedRange? k).isSome =
      (service.mBanRanges[k]?.map (·.reason)).any fun reason =>
        if reason = reasonUser then true
        else if reason = reasonAutoRange then service.mAutoRangeIps
        else false := by
  rw [Service.bannedRange?, Option.isSome_filter, Option.any_map]
  rfl

/-- With friend gathering off, an address is banned by own reports only. -/
theorem Service.Sound.isSome_bannedAddress {service : Service} (hsound : service.Sound)
    (addr : Ipv4) :
    (service.bannedAddress? addr).isSome = true ↔
      service.mIPDHTGatheringEnabled = true ∧ OwnIn service.mBanSet addr := by
  have haccepted : ∀ peer : BanListPeer, service.mBanSet[addr]? = some peer →
      (service.acceptedBanSet peer = true ↔
        service.mIPDHTGatheringEnabled = true ∧ peer.level = 1) := by
    intro peer hpeer
    have hdht : ¬ reasonDht = reasonUser := by decide
    unfold Service.acceptedBanSet
    rw [hsound.friendsOff]
    obtain hown | ⟨hlevel, hreason⟩ := hsound.told addr peer hpeer
    · simp [hown.reason, hown.level, hdht]
    · have hne : ¬ peer.level = 1#32 := by
        intro heq
        rw [heq] at hlevel
        exact absurd hlevel (by decide)
      simp [hreason, hne]
  rw [Service.bannedAddress?, Option.isSome_filter, Option.any_eq_true]
  constructor
  · rintro ⟨peer, hpeer, h⟩
    rw [haccepted peer hpeer] at h
    exact ⟨h.1, peer, hpeer, h.2⟩
  · rintro ⟨hon, peer, hpeer, hlevel⟩
    exact ⟨peer, hpeer, (haccepted peer hpeer).mpr ⟨hon, hlevel⟩⟩

theorem SameView.isWhiteListed {s t : Service} (hview : SameView s t) :
    s.isWhiteListed = t.isWhiteListed := by
  funext addr
  rw [Service.isWhiteListed, Service.isWhiteListed, hview.white]

/-- **Same view, same answers.** -/
theorem SameView.answers {s t : Service} (hview : SameView s t) (hs : s.Sound) (ht : t.Sound)
    (dAddr : SockAddr) (checkingFlags : BitVec 32) :
    (s.isAddressAccepted dAddr checkingFlags).1 = (t.isAddressAccepted dAddr checkingFlags).1 := by
  have hrange : s.inBannedRange = t.inBannedRange := by
    funext addr
    simp only [Service.inBannedRange, isSome_bannedRange, hview.ranges, hview.autoRanges]
  have haddress : ∀ addr, (s.bannedAddress? addr).isSome = (t.bannedAddress? addr).isSome := by
    intro addr
    rw [Bool.eq_iff_iff, hs.isSome_bannedAddress, ht.isSome_bannedAddress, hview.dht,
      hview.banned addr]
  rw [isAddressAccepted_fst, isAddressAccepted_fst, hview.filtering, hview.isWhiteListed, hrange]
  simp only [haddress]

/-! ### Conditions -/

/-- If it enters the list at all, the entry stays apart from the node's own: its level is neither 0
nor the largest, and its reason is not the user's. -/
def BanListEntry.KeepsApart (entry : BanListEntry) : Prop :=
  ∀ addr port, entry.addr.ipv6ToIpv4 = some (addr, port) → addr.isExternalNet →
    1 < entry.level + 1 ∧ entry.reason ≠ reasonUser

/-- Own entries of `mBanSet` counted for the range key `k`. -/
def Service.ownUnderKey (service : Service) (k : Ipv4) : Nat :=
  (service.mBanSet.toList.filter fun entry =>
    makeBitsRange entry.1 1 = k ∧ entry.2.level = 1).length

/-- Where the entries reach the limit, the node's own do. -/
def Service.EnoughOwn (service : Service) : Prop :=
  ∀ k, service.underKey k ≠ 0 → service.mAutoRangeLimit.toNat ≤ service.underKey k →
    service.ownUnderKey k ≠ 0 ∧ service.mAutoRangeLimit.toNat ≤ service.ownUnderKey k

/-- Friend gathering stays off, items come from others, and entries come with items or by the
node's own reports. -/
def Service.Ordinary (service : Service) : Op → Prop
  | .addBanEntry .. => False
  | .processIncoming _ items => ∀ item ∈ items, item.1 ≠ service.ownId
  | .enableIPsFromFriends b => b = false
  | _ => True

/-- The entries of friends keep apart, no automatic range hangs on them, and no own entry has grown
too old when their arrival makes the set anew. -/
def Service.Fair (service : Service) : Op → Prop
  | .processIncoming now items =>
      (∀ item ∈ items, ∀ entry ∈ item.2, entry.KeepsApart) ∧
        ((service.recvBanItems now items).1 →
          ∀ addr, OwnIn service.mBanSet addr ↔ service.OwnReport now addr)
  | .enableAutoRange _ b => b → service.EnoughOwn
  | .setAutoRangeLimit _ n =>
      service.mAutoRangeIps → { service with mAutoRangeLimit := n }.EnoughOwn
  | .autoFigureOutBanRanges _ => service.mAutoRangeIps → service.EnoughOwn
  | _ => True

def Op.fromFriends : Op → Bool
  | .processIncoming .. => true
  | _ => false

/-! ### Condensing -/

theorem SameView.ownReport {s t : Service} (hview : SameView s t) (now : Int) (addr : Ipv4) :
    s.OwnReport now addr ↔ t.OwnReport now addr := by
  unfold Service.OwnReport Service.Counts
  rw [hview.own, hview.isWhiteListed]

theorem Service.Sound.condensed {service : Service} (hsound : service.Sound) (now : Int) :
    (service.condenseBanSources now).Sound :=
  ⟨hsound.friendsOff, hsound.own, hsound.friends, (hsound.condense now).1⟩

theorem SameView.condense {s t : Service} (hview : SameView s t) (hs : s.Sound) (ht : t.Sound)
    (now : Int) : SameView (s.condenseBanSources now) (t.condenseBanSources now) :=
  { hview with
    banned := fun addr => by
      rw [(hs.condense now).2, (ht.condense now).2, hview.ownReport] }

/-! ### Reports -/

/-- A report changes one source, or nothing. -/
theorem addBanEntry_cases (service : Service) (now : Int) (peerId : RsPeerId) (dAddr : SockAddr)
    (level reason : BitVec 32) (timeStamp : Int) :
    (service.addBanEntry now peerId dAddr level reason timeStamp).2 = service ∨
      ∃ addr port attempts, dAddr.ipv6ToIpv4 = some (addr, port) ∧ addr.isExternalNet ∧
        (service.addBanEntry now peerId dAddr level reason timeStamp).2 =
          { service with
            mBanSources := service.mBanSources.insert peerId
              ⟨now, (service.mBanSources[peerId]?.getD ⟨now, ∅⟩).mBanPeers.insert addr
                ⟨addr, reason, level, attempts, timeStamp⟩⟩ } := by
  unfold Service.addBanEntry
  split
  · exact .inl rfl
  · next addr port hipv4 =>
      dsimp only
      split
      · exact .inl rfl
      · next hexternal =>
          have hexternal : addr.isExternalNet = true := by simpa using hexternal
          split
          · exact .inr ⟨addr, port, 0, hipv4, hexternal, rfl⟩
          · next known hknown =>
              split
              · exact .inr ⟨addr, port, known.connectAttempts, hipv4, hexternal, rfl⟩
              · exact .inl rfl

/-- Entries of the source after one of them has been written. -/
theorem lookup_report {service : Service} {now : Int} {peerId : RsPeerId} {addr x : Ipv4}
    {entry new : BanListPeer} {source : Source}
    (hsource : (service.mBanSources.insert peerId
      ⟨now, (service.mBanSources[peerId]?.getD ⟨now, ∅⟩).mBanPeers.insert addr new⟩)[peerId]? =
        some source)
    (hentry : source.mBanPeers[x]? = some entry) :
    (addr = x ∧ entry = new) ∨
      ∃ before : Source, service.mBanSources[peerId]? = some before ∧
        before.mBanPeers[x]? = some entry := by
  rw [OrderedMap.lookup_insert_self, Option.some.injEq] at hsource
  rw [← hsource, OrderedMap.lookup_insert] at hentry
  split at hentry
  · next heq => exact .inl ⟨heq, (Option.some.inj hentry).symm⟩
  · cases hbefore : service.mBanSources[peerId]? with
    | none => simp [hbefore] at hentry
    | some before =>
        rw [hbefore, Option.getD_some] at hentry
        exact .inr ⟨before, rfl, hentry⟩

theorem Service.Sound.report {service : Service} (hsound : service.Sound) (now : Int)
    {peerId : RsPeerId} {addr : Ipv4} {new : BanListPeer} (haddr : new.addr = addr)
    (hown : peerId = service.ownId → OwnEntry new)
    (hfriend : peerId ≠ service.ownId → FriendEntry new) :
    Service.Sound
      { service with
        mBanSources := service.mBanSources.insert peerId
          ⟨now, (service.mBanSources[peerId]?.getD ⟨now, ∅⟩).mBanPeers.insert addr new⟩ } where
  friendsOff := hsound.friendsOff
  own source hsource x entry hentry := by
    dsimp only at hsource
    by_cases hpeer : peerId = service.ownId
    · rw [← hpeer] at hsource
      obtain ⟨rfl, rfl⟩ | ⟨before, hbefore, hentry⟩ := lookup_report hsource hentry
      · exact ⟨haddr, hown hpeer⟩
      · exact hsound.own before (hpeer ▸ hbefore) x entry hentry
    · rw [OrderedMap.lookup_insert_ne _ _ hpeer] at hsource
      exact hsound.own source hsource x entry hentry
  friends otherId source hother hsource x entry hentry := by
    dsimp only at hsource hother
    by_cases hpeer : peerId = otherId
    · subst hpeer
      obtain ⟨rfl, rfl⟩ | ⟨before, hbefore, hentry⟩ := lookup_report hsource hentry
      · exact hfriend hother
      · exact hsound.friends peerId before hother hbefore x entry hentry
    · rw [OrderedMap.lookup_insert_ne _ _ hpeer] at hsource
      exact hsound.friends otherId source hother hsource x entry hentry
  told := hsound.told

theorem Service.Sound.addOwn {service : Service} (hsound : service.Sound) (now : Int)
    (dAddr : SockAddr) (timeStamp : Int) :
    (service.addBanEntry now service.ownId dAddr originSelf reasonDht timeStamp).2.Sound := by
  obtain hsame | ⟨addr, port, attempts, -, -, hreport⟩ :=
    addBanEntry_cases service now service.ownId dAddr originSelf reasonDht timeStamp
  · rwa [hsame]
  · rw [hreport]
    exact hsound.report now rfl (fun _ => ⟨rfl, rfl⟩) (fun h => absurd rfl h)

/-- What a friend's entry leaves alone: the view of the service, and its soundness. -/
theorem Service.Sound.addFriend {service : Service} (hsound : service.Sound) (now : Int)
    {peerId : RsPeerId} (hpeer : peerId ≠ service.ownId) {entry : BanListEntry}
    (hapart : entry.KeepsApart) (timeStamp : Int) :
    let after := (service.addBanEntry now peerId entry.addr entry.level entry.reason timeStamp).2
    after.Sound ∧ SameView service after := by
  obtain hsame | ⟨addr, port, attempts, hipv4, hexternal, hreport⟩ :=
    addBanEntry_cases service now peerId entry.addr entry.level entry.reason timeStamp
  · rw [hsame]
    exact ⟨hsound, .refl service⟩
  · obtain ⟨hlevel, hreason⟩ := hapart addr port hipv4 hexternal
    dsimp only
    rw [hreport]
    exact ⟨hsound.report now rfl (fun h => absurd h hpeer) (fun _ => ⟨hlevel, hreason⟩),
      { SameView.refl service with
        own := (OrderedMap.lookup_insert_ne _ _ hpeer).symm }⟩

theorem Service.Sound.recvBanItem {service : Service} (hsound : service.Sound) (now : Int)
    {peerId : RsPeerId} (hpeer : peerId ≠ service.ownId) {entries : List BanListEntry}
    (hapart : ∀ entry ∈ entries, entry.KeepsApart) :
    (service.recvBanItem now peerId entries).2.Sound ∧
      SameView service (service.recvBanItem now peerId entries).2 := by
  unfold Service.recvBanItem
  induction entries using List.reverseRecOn with
  | nil => exact ⟨hsound, .refl service⟩
  | append_singleton entries entry ih =>
      rw [List.foldl_append, List.foldl_cons, List.foldl_nil]
      obtain ⟨hsound', hview⟩ := ih fun entry hentry => hapart entry (List.mem_append_left _ hentry)
      obtain ⟨hsound'', hview'⟩ := hsound'.addFriend now (hview.ownId ▸ hpeer)
        (hapart entry (List.mem_append_right _ (List.mem_singleton_self _)))
        (now - entry.age.toNat)
      exact ⟨hsound'', hview.trans hview'⟩

theorem Service.Sound.recvBanItems {service : Service} (hsound : service.Sound) (now : Int)
    {items : List (RsPeerId × List BanListEntry)} (hothers : ∀ item ∈ items, item.1 ≠ service.ownId)
    (hapart : ∀ item ∈ items, ∀ entry ∈ item.2, entry.KeepsApart) :
    (service.recvBanItems now items).2.Sound ∧
      SameView service (service.recvBanItems now items).2 := by
  unfold Service.recvBanItems
  induction items using List.reverseRecOn with
  | nil => exact ⟨hsound, .refl service⟩
  | append_singleton items item ih =>
      rw [List.foldl_append, List.foldl_cons, List.foldl_nil]
      obtain ⟨hsound', hview⟩ := ih (fun item hitem => hothers item (List.mem_append_left _ hitem))
        (fun item hitem => hapart item (List.mem_append_left _ hitem))
      have hmem : item ∈ items ++ [item] := List.mem_append_right _ (List.mem_singleton_self _)
      obtain ⟨hsound'', hview'⟩ := hsound'.recvBanItem now (hview.ownId ▸ hothers item hmem)
        (hapart item hmem)
      exact ⟨hsound'', hview.trans hview'⟩

/-- **Items of friends.** They leave the view alone if they are fair. -/
theorem Service.Sound.processIncoming {service : Service} (hsound : service.Sound) {now : Int}
    {items : List (RsPeerId × List BanListEntry)}
    (hordinary : service.Ordinary (.processIncoming now items))
    (hfair : service.Fair (.processIncoming now items)) :
    (service.processIncoming now items).Sound ∧
      SameView service (service.processIncoming now items) := by
  obtain ⟨hreceived, hview⟩ := hsound.recvBanItems now hordinary hfair.1
  unfold Service.processIncoming
  dsimp only
  split
  · next hnews =>
      refine ⟨hreceived.condensed now, hview.trans
        { SameView.refl (service.recvBanItems now items).2 with banned := fun addr => ?_ }⟩
      rw [(hreceived.condense now).2, ← hview.banned, hfair.2 hnews, hview.ownReport]
  · exact ⟨hreceived, hview⟩

/-! ### Calls of the node -/

theorem SameView.addOwn {s t : Service} (hview : SameView s t) (now : Int) (dAddr : SockAddr)
    (timeStamp : Int) :
    SameView (s.addBanEntry now s.ownId dAddr originSelf reasonDht timeStamp).2
      (t.addBanEntry now t.ownId dAddr originSelf reasonDht timeStamp).2 := by
  have hreport : ∀ (addr : Ipv4) (new : BanListPeer), SameView
      { s with
        mBanSources := s.mBanSources.insert s.ownId
          ⟨now, (s.mBanSources[s.ownId]?.getD ⟨now, ∅⟩).mBanPeers.insert addr new⟩ }
      { t with
        mBanSources := t.mBanSources.insert t.ownId
          ⟨now, (t.mBanSources[t.ownId]?.getD ⟨now, ∅⟩).mBanPeers.insert addr new⟩ } := by
    intro addr new
    refine { hview with own := ?_ }
    dsimp only
    rw [OrderedMap.lookup_insert_self, OrderedMap.lookup_insert_self, hview.own]
  unfold Service.addBanEntry
  split
  · exact hview
  · dsimp only
    split
    · exact hview
    · rw [← hview.own]
      split
      · exact hview.own ▸ hreport _ _
      · split
        · exact hview.own ▸ hreport _ _
        · exact hview

theorem SameView.getDhtInfo {s t : Service} (hview : SameView s t) (hs : s.Sound) (ht : t.Sound)
    (now : Int) (filteredPeers : List (Ipv4 × Int)) :
    (s.getDhtInfo now filteredPeers).Sound ∧
      SameView (s.getDhtInfo now filteredPeers) (t.getDhtInfo now filteredPeers) := by
  have hreports : ∀ peers : List (Ipv4 × Int),
      let report (service : Service) (peer : Ipv4 × Int) :=
        (service.addBanEntry now service.ownId (.inet peer.1 0) originSelf reasonDht peer.2).2
      (peers.foldl report s).Sound ∧ (peers.foldl report t).Sound ∧
        SameView (peers.foldl report s) (peers.foldl report t) := by
    intro peers
    induction peers using List.reverseRecOn with
    | nil => exact ⟨hs, ht, hview⟩
    | append_singleton peers peer ih =>
        simp only [List.foldl_append, List.foldl_cons, List.foldl_nil] at ih ⊢
        exact ⟨ih.1.addOwn .., ih.2.1.addOwn .., ih.2.2.addOwn ..⟩
  obtain ⟨hs', ht', hview'⟩ := hreports filteredPeers
  exact ⟨hs'.condensed now, hview'.condense hs' ht' now⟩

/-- Both services get new ranges, the same ones as far as the view goes, and condense. -/
theorem SameView.relist {s t : Service} (hview : SameView s t) (hs : s.Sound) (ht : t.Sound)
    (now : Int) {ranges ranges' white white' : OrderedMap Ipv4 BanListPeer}
    (hranges : ∀ k : Ipv4, ranges[k]?.map (·.reason) = ranges'[k]?.map (·.reason))
    (hwhite : white = white') :
    let s' := { s with mBanRanges := ranges, mWhiteListedRanges := white }
    let t' := { t with mBanRanges := ranges', mWhiteListedRanges := white' }
    (s'.condenseBanSources now).Sound ∧
      SameView (s'.condenseBanSources now) (t'.condenseBanSources now) := by
  intro s' t'
  have hs' : s'.Sound := ⟨hs.friendsOff, hs.own, hs.friends, hs.told⟩
  have ht' : t'.Sound := ⟨ht.friendsOff, ht.own, ht.friends, ht.told⟩
  have hview' : SameView s' t' := { hview with ranges := hranges, white := hwhite }
  exact ⟨hs'.condensed now, hview'.condense hs' ht' now⟩

theorem SameView.addIpRange {s t : Service} (hview : SameView s t) (hs : s.Sound) (ht : t.Sound)
    (now : Int) (dAddr : SockAddr) (maskedBytes : Int) (listType : Nat) :
    (s.addIpRange now dAddr maskedBytes listType).2.Sound ∧
      SameView (s.addIpRange now dAddr maskedBytes listType).2
        (t.addIpRange now dAddr maskedBytes listType).2 := by
  unfold Service.addIpRange
  split
  · exact ⟨hs, hview⟩
  · dsimp only
    split
    · exact ⟨hs, hview⟩
    · split
      · refine hview.relist hs ht now (fun k => ?_) hview.white
        rw [lookup_addRange, lookup_addRange]
        split
        · rfl
        · split
          · rfl
          · exact hview.ranges k
      · split
        · exact hview.relist hs ht now hview.ranges (by rw [hview.white])
        · exact ⟨hs, hview⟩

theorem SameView.removeIpRange {s t : Service} (hview : SameView s t) (hs : s.Sound) (ht : t.Sound)
    (now : Int) (dAddr : SockAddr) (maskedBytes : Int) (listType : Nat) :
    (s.removeIpRange now dAddr maskedBytes listType).2.Sound ∧
      SameView (s.removeIpRange now dAddr maskedBytes listType).2
        (t.removeIpRange now dAddr maskedBytes listType).2 := by
  unfold Service.removeIpRange
  split
  · exact ⟨hs, hview⟩
  · dsimp only
    split
    · refine hview.relist hs ht now (fun k => ?_) hview.white
      rw [OrderedMap.lookup_erase, OrderedMap.lookup_erase]
      split
      · rfl
      · exact hview.ranges k
    · split
      · exact hview.relist hs ht now hview.ranges (by rw [hview.white])
      · exact ⟨hs.condensed now, hview.condense hs ht now⟩

/-- Own entries under a key are counted alike. -/
theorem SameView.ownUnderKey {s t : Service} (hview : SameView s t) (k : Ipv4) :
    s.ownUnderKey k = t.ownUnderKey k := by
  have hmem : ∀ (service : Service) (x : Ipv4),
      x ∈ (service.mBanSet.toList.filter fun entry =>
        makeBitsRange entry.1 1 = k ∧ entry.2.level = 1).map Prod.fst ↔
      makeBitsRange x 1 = k ∧ OwnIn service.mBanSet x := by
    intro service x
    simp only [List.mem_map, List.mem_filter, decide_eq_true_eq, OwnIn]
    constructor
    · rintro ⟨⟨addr, peer⟩, ⟨hpeer, hkey, hlevel⟩, rfl⟩
      exact ⟨hkey, peer, (OrderedMap.mem_toList _).mp hpeer, hlevel⟩
    · rintro ⟨hkey, peer, hpeer, hlevel⟩
      exact ⟨(x, peer), ⟨(OrderedMap.mem_toList _).mpr hpeer, hkey, hlevel⟩, rfl⟩
  have hnodup : ∀ service : Service, ((service.mBanSet.toList.filter fun entry =>
      makeBitsRange entry.1 1 = k ∧ entry.2.level = 1).map Prod.fst).Nodup := by
    intro service
    exact (OrderedMap.nodup_keys_toList _).sublist (List.filter_sublist.map _)
  unfold Service.ownUnderKey
  have hperm := (List.perm_ext_iff_of_nodup (hnodup s) (hnodup t)).mpr fun x => by
    rw [hmem, hmem, hview.banned]
  simpa using hperm.length_eq

theorem ownUnderKey_le (service : Service) (k : Ipv4) :
    service.ownUnderKey k ≤ service.underKey k := by
  unfold Service.ownUnderKey Service.underKey
  refine List.Sublist.length_le (List.monotone_filter_right _ ?_)
  intro entry hentry
  rw [decide_eq_true_eq] at hentry ⊢
  exact hentry.1

/-- Where friends' entries make no range of their own, the own ones decide. -/
theorem Service.EnoughOwn.reaches_iff {service : Service} (henough : service.EnoughOwn) (k : Ipv4) :
    (service.underKey k ≠ 0 ∧ service.mAutoRangeLimit.toNat ≤ service.underKey k) ↔
      (service.ownUnderKey k ≠ 0 ∧ service.mAutoRangeLimit.toNat ≤ service.ownUnderKey k) := by
  have hle := ownUnderKey_le service k
  constructor
  · rintro ⟨hpos, hreach⟩
    exact henough k hpos hreach
  · rintro ⟨hpos, hreach⟩
    exact ⟨by omega, by omega⟩

theorem reason_autoFigureOut (service : Service) (now : Int) (k : Ipv4) :
    (service.autoFigureOutBanRanges now).mBanRanges[k]?.map (·.reason) =
      let kept := (service.mBanRanges[k]?.map (·.reason)).filter (· ≠ reasonAutoRange)
      if service.mAutoRangeIps ∧ (service.underKey k ≠ 0 ∧
          service.mAutoRangeLimit.toNat ≤ service.underKey k) ∧ kept ≠ some reasonUser then
        some reasonAutoRange
      else kept := by
  have hkept : ((service.mBanRanges[k]?.filter fun peer => peer.reason ≠ reasonAutoRange).map
      (·.reason)) = (service.mBanRanges[k]?.map (·.reason)).filter (· ≠ reasonAutoRange) := by
    cases service.mBanRanges[k]? with
    | none => rfl
    | some peer => by_cases hauto : peer.reason = reasonAutoRange <;> simp [Option.filter, hauto]
  rw [lookup_autoFigureOut]
  dsimp only
  rw [← hkept]
  by_cases hon : service.mAutoRangeIps ∧ service.underKey k ≠ 0
  · rw [if_pos hon, Service.created]
    by_cases hfew : service.underKey k < service.mAutoRangeLimit.toNat
    · rw [if_pos (.inl hfew), if_neg]
      rintro ⟨-, ⟨-, hreach⟩, -⟩
      exact Nat.not_le.mpr hfew hreach
    · by_cases huser : ((service.mBanRanges[k]?.filter fun peer =>
          peer.reason ≠ reasonAutoRange).map (·.reason)) = some reasonUser
      · rw [if_pos (.inr huser), if_neg (fun h => h.2.2 huser)]
      · rw [if_neg (not_or.mpr ⟨hfew, huser⟩),
          if_pos ⟨hon.1, ⟨hon.2, Nat.le_of_not_lt hfew⟩, huser⟩]
        rfl
  · rw [if_neg hon, if_neg]
    rintro ⟨hauto, ⟨hpos, -⟩, -⟩
    exact hon ⟨hauto, hpos⟩

theorem autoFigureOut_eq (service : Service) (now : Int) :
    service.autoFigureOutBanRanges now =
      let ranges := (service.autoFigureOutBanRanges now).mBanRanges
      if service.mAutoRangeIps then { service with mBanRanges := ranges }.condenseBanSources now
      else { service with mBanRanges := ranges } := by
  by_cases hon : service.mAutoRangeIps <;>
    simp [Service.autoFigureOutBanRanges, Service.clearAutoRanges, Service.createRanges,
      Service.condenseBanSources, hon]

theorem SameView.autoFigureOut {s t : Service} (hview : SameView s t) (hs : s.Sound) (ht : t.Sound)
    (hfair : s.mAutoRangeIps → s.EnoughOwn) (hfair' : t.mAutoRangeIps → t.EnoughOwn) (now : Int) :
    (s.autoFigureOutBanRanges now).Sound ∧
      SameView (s.autoFigureOutBanRanges now) (t.autoFigureOutBanRanges now) := by
  have hranges : ∀ k : Ipv4, (s.autoFigureOutBanRanges now).mBanRanges[k]?.map (·.reason) =
      (t.autoFigureOutBanRanges now).mBanRanges[k]?.map (·.reason) := by
    intro k
    rw [reason_autoFigureOut, reason_autoFigureOut, hview.ranges k]
    by_cases hon : s.mAutoRangeIps
    · have hon' : t.mAutoRangeIps := hview.autoRanges ▸ hon
      have hcount : (s.underKey k ≠ 0 ∧ s.mAutoRangeLimit.toNat ≤ s.underKey k) ↔
          (t.underKey k ≠ 0 ∧ t.mAutoRangeLimit.toNat ≤ t.underKey k) := by
        rw [(hfair hon).reaches_iff k, (hfair' hon').reaches_iff k, hview.ownUnderKey k,
          hview.limit]
      simp only [hcount, hon, hon']
    · have hoff : ¬ t.mAutoRangeIps := hview.autoRanges ▸ hon
      simp only [hon, hoff, Bool.false_eq_true, false_and]
  rw [autoFigureOut_eq s, autoFigureOut_eq t]
  dsimp only
  by_cases hon : s.mAutoRangeIps
  · rw [if_pos hon, if_pos (hview.autoRanges ▸ hon)]
    exact hview.relist hs ht now hranges hview.white
  · rw [if_neg hon, if_neg (hview.autoRanges ▸ hon)]
    exact ⟨⟨hs.friendsOff, hs.own, hs.friends, hs.told⟩, { hview with ranges := hranges }⟩

theorem Service.Sound.isAddressAccepted {service : Service} (hsound : service.Sound)
    (dAddr : SockAddr) (checkingFlags : BitVec 32) :
    let after := (service.isAddressAccepted dAddr checkingFlags).2.2
    after.Sound ∧ SameView service after := by
  obtain hsame | ⟨k, peer, hpeer, hattempt⟩ | ⟨addr, peer, hpeer, hattempt⟩ :=
    isAddressAccepted_cases service dAddr checkingFlags
  · dsimp only
    rw [hsame]
    exact ⟨hsound, .refl service⟩
  · dsimp only
    rw [hattempt]
    refine ⟨⟨hsound.friendsOff, hsound.own, hsound.friends, hsound.told⟩,
      { SameView.refl service with ranges := fun k' => ?_ }⟩
    dsimp only
    rw [OrderedMap.lookup_insert]
    split
    · next heq =>
        rw [← heq, hpeer]
        rfl
    · rfl
  · dsimp only
    rw [hattempt]
    have htold : Told peer.attempt := by
      obtain hown | hfriend := hsound.told addr peer hpeer
      · exact .inl ⟨hown.level, hown.reason⟩
      · exact .inr hfriend
    refine ⟨⟨hsound.friendsOff, hsound.own, hsound.friends, hsound.told.insert addr htold⟩,
      { SameView.refl service with banned := fun x => ?_ }⟩
    dsimp only
    rw [ownIn_insert]
    split
    · next heq =>
        rw [← heq]
        constructor
        · rintro ⟨other, hother, hlevel⟩
          rw [hpeer] at hother
          rwa [Option.some.inj hother]
        · exact fun hlevel => ⟨peer, hpeer, hlevel⟩
    · exact Iff.rfl

theorem SameView.updatePeer {s t : Service} (hview : SameView s t) (hs : s.Sound) (ht : t.Sound)
    (now : Int) (dAddr : SockAddr) (timeStamp : Int) :
    (s.updatePeer now dAddr timeStamp).Sound ∧
      SameView (s.updatePeer now dAddr timeStamp) (t.updatePeer now dAddr timeStamp) := by
  unfold Service.updatePeer
  split
  · exact ⟨hs, hview⟩
  · have hs' := hs.addOwn now dAddr timeStamp
    have ht' := ht.addOwn now dAddr timeStamp
    exact ⟨hs'.condensed now, (hview.addOwn now dAddr timeStamp).condense hs' ht' now⟩

/-- **A call of the node.** It keeps soundness, and the same view of two services. -/
theorem SameView.call {s t : Service} {op : Op} (hview : SameView s t) (hs : s.Sound)
    (ht : t.Sound) (hop : op.fromFriends = false) (hordinary : s.Ordinary op) (hfair : s.Fair op)
    (hfair' : t.Fair op) : (s.run op).Sound ∧ SameView (s.run op) (t.run op) := by
  cases op with
  | addIpRange now addr maskedBytes listType => exact hview.addIpRange hs ht ..
  | removeIpRange now addr maskedBytes listType => exact hview.removeIpRange hs ht ..
  | addBanEntry now peerId addr level reason timeStamp => exact hordinary.elim
  | enableAutoRange now b =>
      have hon : SameView { s with mAutoRangeIps := b } { t with mAutoRangeIps := b } :=
        { hview with autoRanges := rfl }
      exact hon.autoFigureOut ⟨hs.friendsOff, hs.own, hs.friends, hs.told⟩
        ⟨ht.friendsOff, ht.own, ht.friends, ht.told⟩ hfair hfair' now
  | setAutoRangeLimit now n =>
      have hlimit : SameView { s with mAutoRangeLimit := n } { t with mAutoRangeLimit := n } :=
        { hview with limit := rfl }
      exact hlimit.autoFigureOut ⟨hs.friendsOff, hs.own, hs.friends, hs.told⟩
        ⟨ht.friendsOff, ht.own, ht.friends, ht.told⟩ hfair hfair' now
  | autoFigureOutBanRanges now => exact hview.autoFigureOut hs ht hfair hfair' now
  | isAddressAccepted addr checkingFlags =>
      obtain ⟨hs', hviewS⟩ := hs.isAddressAccepted addr checkingFlags
      obtain ⟨-, hviewT⟩ := ht.isAddressAccepted addr checkingFlags
      exact ⟨hs', (hviewS.symm.trans hview).trans hviewT⟩
  | processIncoming now items => cases hop
  | getDhtInfo now filteredPeers => exact hview.getDhtInfo hs ht now filteredPeers
  | updatePeer now addr timeStamp => exact hview.updatePeer hs ht now addr timeStamp
  | enableIPFiltering b =>
      exact ⟨⟨hs.friendsOff, hs.own, hs.friends, hs.told⟩, { hview with filtering := rfl }⟩
  | enableIPsFromFriends b => exact ⟨⟨hordinary, hs.own, hs.friends, hs.told⟩, { hview with }⟩
  | enableIPsFromDHT b =>
      exact ⟨⟨hs.friendsOff, hs.own, hs.friends, hs.told⟩, { hview with dht := rfl }⟩

theorem sound_new (ownId : RsPeerId) : (Service.new ownId).Sound where
  friendsOff := rfl
  own _ hsource := by simp [Service.new] at hsource
  friends _ _ _ hsource := by simp [Service.new] at hsource
  told _ _ hentry := by simp [Service.new] at hentry

theorem unwinding : Unwinding Service.run (fun service op => service.Ordinary op ∧ service.Fair op)
    Op.fromFriends Service.Sound SameView where
  symm _ _ := SameView.symm
  trans _ _ _ := SameView.trans
  keeps service op hsound hallowed := by
    cases hop : op.fromFriends with
    | true =>
        cases op with
        | processIncoming now items => exact (hsound.processIncoming hallowed.1 hallowed.2).1
        | _ => cases hop
    | false =>
        exact ((SameView.refl service).call hsound hsound hop hallowed.1 hallowed.2 hallowed.2).1
  hides service op hop hsound hallowed := by
    cases op with
    | processIncoming now items => exact (hsound.processIncoming hallowed.1 hallowed.2).2
    | _ => cases hop
  shows s t op hop hs ht hallowed hallowed' hview :=
    (hview.call hs ht hop hallowed.1 hallowed.2 hallowed'.2).2

/-- **Friends do not steer the filter.** Two runs that differ in the items of friends only end in
services that answer alike, as long as the items are fair. -/
theorem answers_of_sameCalls (ownId : RsPeerId) (ops ops' : List Op)
    (hmeets : Meets Service.run (fun service op => service.Ordinary op ∧ service.Fair op)
      (.new ownId) ops)
    (hmeets' : Meets Service.run (fun service op => service.Ordinary op ∧ service.Fair op)
      (.new ownId) ops')
    (hcalls : ops.filter (fun op => !op.fromFriends) = ops'.filter (fun op => !op.fromFriends))
    (dAddr : SockAddr) (checkingFlags : BitVec 32) :
    ((ops.foldl Service.run (.new ownId)).isAddressAccepted dAddr checkingFlags).1 =
      ((ops'.foldl Service.run (.new ownId)).isAddressAccepted dAddr checkingFlags).1 :=
  (unwinding.noninterference ops ops' (sound_new ownId) (sound_new ownId) hmeets hmeets' hcalls
    (SameView.refl _)).answers (unwinding.invariant ops (sound_new ownId) hmeets)
      (unwinding.invariant ops' (sound_new ownId) hmeets') dAddr checkingFlags

/-! ### One item -/

/-- Friend 1 reports 8.8.8.8. -/
def itemWith (reason : BitVec 32) : Op :=
  .processIncoming 0 [(1, [⟨.inet ⟨8, 8, 8, 8⟩ 0, 1, reason, 0⟩])]

theorem ordinary_itemWith (reason : BitVec 32) :
    (Service.new 0).Ordinary (itemWith reason) := by
  intro item hitem
  rw [List.mem_singleton.mp hitem]
  exact Nat.one_ne_zero

theorem answers_of_sameCalls_sample :
    (([itemWith reasonDht].foldl Service.run (.new 0)).isAddressAccepted (.inet ⟨8, 8, 8, 8⟩ 0)
      checkingFlagsBlacklist).1 =
    (([].foldl Service.run (.new 0)).isAddressAccepted (.inet ⟨8, 8, 8, 8⟩ 0)
      checkingFlagsBlacklist).1 := by
  have hfair : (Service.new 0).Fair (itemWith reasonDht) := by
    constructor
    · intro item hitem entry hentry addr port _ _
      rw [List.mem_singleton.mp hitem] at hentry
      rw [List.mem_singleton.mp hentry]
      exact ⟨by decide, by decide⟩
    · intro _ addr
      simp [OwnIn, Service.OwnReport, Service.new]
  exact answers_of_sameCalls 0 [itemWith reasonDht] [] ⟨⟨ordinary_itemWith _, hfair⟩, trivial⟩
    trivial rfl _ _

/-- A friend who calls the user's reason its own bans an address. -/
theorem answers_of_sameCalls_counterexample :
    ¬ ∀ (ownId : RsPeerId) (ops ops' : List Op),
      Meets Service.run Service.Ordinary (.new ownId) ops →
      Meets Service.run Service.Ordinary (.new ownId) ops' →
      ops.filter (fun op => !op.fromFriends) = ops'.filter (fun op => !op.fromFriends) →
      ∀ (dAddr : SockAddr) (checkingFlags : BitVec 32),
        ((ops.foldl Service.run (.new ownId)).isAddressAccepted dAddr checkingFlags).1 =
          ((ops'.foldl Service.run (.new ownId)).isAddressAccepted dAddr checkingFlags).1 := by
  intro hall
  have hsame := hall 0 [itemWith reasonUser] [] ⟨ordinary_itemWith _, trivial⟩ trivial rfl
    (.inet ⟨8, 8, 8, 8⟩ 0) checkingFlagsBlacklist
  exact absurd hsame (by decide)

end RetroShare.BanList
