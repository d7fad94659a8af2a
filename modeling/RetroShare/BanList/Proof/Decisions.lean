import RetroShare.BanList.Proof.Ranges

/-!
# Decisions over whole runs

The two maps of the service represent the two lists after every call that keeps the listed ranges
plain, and so the filter decides by the ranges.
-/

namespace RetroShare.BanList

open Transition

/-! ### One decision -/

structure Watched.Tracks (watched : Watched) : Prop where
  white : Represents watched.service.mWhiteListedRanges watched.listed.white
  black : Represents watched.service.mBanRanges watched.listed.black

theorem tracks_new (ownId : RsPeerId) : (Watched.new ownId).Tracks :=
  ⟨represents_empty, represents_empty⟩

theorem Represents.isWhiteListed_iff {service : Service} {list : RangeList}
    (hrep : Represents service.mWhiteListedRanges list) (addr : Ipv4) :
    service.isWhiteListed addr = true ↔ ∃ range, list range ≠ none ∧ range.Contains addr := by
  have hsome : ∀ k : Ipv4, service.mWhiteListedRanges[k]?.isSome = true ↔
      ∃ origin peer, service.mWhiteListedRanges[k]? = some peer ∧ peer.origin = origin := by
    intro k
    rw [Option.isSome_iff_exists]
    constructor
    · rintro ⟨peer, hpeer⟩
      exact ⟨_, peer, hpeer, rfl⟩
    · rintro ⟨_, peer, hpeer, _⟩
      exact ⟨peer, hpeer⟩
  have horigin : (∃ range, list range ≠ none ∧ range.Contains addr) ↔
      ∃ origin range, list range = some origin ∧ range.Contains addr := by
    simp only [Option.ne_none_iff_exists']
    constructor
    · rintro ⟨range, ⟨origin, hlisted⟩, hcontains⟩
      exact ⟨origin, range, hlisted, hcontains⟩
    · rintro ⟨origin, range, hlisted, hcontains⟩
      exact ⟨range, ⟨origin, hlisted⟩, hcontains⟩
  rw [horigin]
  simp only [hrep.listed_iff, Service.isWhiteListed, Bool.or_eq_true, hsome, List.mem_cons,
    List.not_mem_nil, or_false]
  constructor
  · rintro ((h | h) | h) <;> obtain ⟨origin, hfound⟩ := h
    · exact ⟨origin, _, .inr (.inr rfl), hfound⟩
    · exact ⟨origin, _, .inr (.inl rfl), hfound⟩
    · exact ⟨origin, _, .inl rfl, hfound⟩
  · rintro ⟨origin, k, rfl | rfl | rfl, hfound⟩
    · exact .inr ⟨origin, hfound⟩
    · exact .inl (.inr ⟨origin, hfound⟩)
    · exact .inl (.inl ⟨origin, hfound⟩)

theorem Represents.accepted_iff {service : Service} {list : RangeList}
    (hrep : Represents service.mBanRanges list) {k : Ipv4} {peer : BanListPeer}
    (hpeer : service.mBanRanges[k]? = some peer) :
    service.acceptedBanRanges peer = true ↔
      peer.origin = .user ∨ (peer.origin = .auto ∧ service.mAutoRangeIps) := by
  have hauto : ¬ reasonAutoRange = reasonUser := by decide
  obtain hreason | hreason := hrep.reasons k peer hpeer <;>
    simp [Service.acceptedBanRanges, BanListPeer.origin, hreason, hauto]

/-- The lookups of an address find a range that counts when one in effect contains it. -/
theorem Watched.Tracks.banned_iff {watched : Watched} (htracks : watched.Tracks) (addr : Ipv4) :
    (∃ k ∈ [makeBitsRange addr 2, makeBitsRange addr 1, makeBitsRange addr 0],
      (watched.service.bannedRange? k).isSome) ↔
        ∃ range : IpRange, range.Contains addr ∧ watched.InEffect range := by
  have hkey : ∀ k : Ipv4, (watched.service.bannedRange? k).isSome = true ↔
      (∃ peer, watched.service.mBanRanges[k]? = some peer ∧ peer.origin = .user) ∨
      ((∃ peer, watched.service.mBanRanges[k]? = some peer ∧ peer.origin = .auto) ∧
        watched.service.mAutoRangeIps) := by
    intro k
    rw [Service.bannedRange?, Option.isSome_filter, Option.any_eq_true]
    constructor
    · rintro ⟨peer, hpeer, haccepted⟩
      obtain huser | ⟨hauto, hon⟩ := (htracks.black.accepted_iff hpeer).mp haccepted
      · exact .inl ⟨peer, hpeer, huser⟩
      · exact .inr ⟨⟨peer, hpeer, hauto⟩, hon⟩
    · rintro (⟨peer, hpeer, huser⟩ | ⟨⟨peer, hpeer, hauto⟩, hon⟩)
      · exact ⟨peer, hpeer, (htracks.black.accepted_iff hpeer).mpr (.inl huser)⟩
      · exact ⟨peer, hpeer, (htracks.black.accepted_iff hpeer).mpr (.inr ⟨hauto, hon⟩)⟩
  simp only [hkey, and_or_left, exists_or, ← and_assoc, exists_and_right]
  rw [← htracks.black.listed_iff .user addr, ← htracks.black.listed_iff .auto addr]
  unfold Watched.InEffect
  constructor
  · rintro (⟨range, hlisted, hcontains⟩ | ⟨⟨range, hlisted, hcontains⟩, hon⟩)
    · exact ⟨range, hcontains, .inl hlisted⟩
    · exact ⟨range, hcontains, .inr ⟨hlisted, hon⟩⟩
  · rintro ⟨range, hcontains, hlisted | ⟨hlisted, hon⟩⟩
    · exact .inl ⟨range, hlisted, hcontains⟩
    · exact .inr ⟨⟨range, hlisted, hcontains⟩, hon⟩

/-- Some key of the address leads to a range that counts. -/
def Service.inBannedRange (service : Service) (addr : Ipv4) : Bool :=
  [makeBitsRange addr 2, makeBitsRange addr 1, makeBitsRange addr 0].any fun k =>
    (service.bannedRange? k).isSome

/-- The decision without the counters. -/
theorem isAddressAccepted_fst (service : Service) (dAddr : SockAddr) (checkingFlags : BitVec 32) :
    (service.isAddressAccepted dAddr checkingFlags).1 =
      (!service.mIPFilteringEnabled || dAddr.ipv6ToIpv4.all fun (addr, _) =>
        addr.isLoopbackNet || service.isWhiteListed addr ||
          (decide (checkingFlags &&& checkingFlagsWhitelist = 0) &&
            (decide (checkingFlags &&& checkingFlagsBlacklist = 0) ||
              (!service.inBannedRange addr && !(service.bannedAddress? addr).isSome)))) := by
  unfold Service.isAddressAccepted
  split
  · next hoff => simp [hoff]
  · next hon =>
      split
      · next hnone => simp [hnone]
      · next addr port hipv4 =>
          rw [hipv4, Option.all_some]
          split
          · next hloop => simp [hloop]
          · next hloop =>
              split
              · next hwhite => simp [hwhite]
              · next hwhite =>
                  split
                  · next hflag => simp_all
                  · next hflag =>
                      split
                      · next hnoflag => simp_all
                      · next hnoflag =>
                          split
                          · next hfound =>
                              obtain ⟨k, hk, hpeer⟩ := List.exists_of_findSome?_eq_some hfound
                              have hin : service.inBannedRange addr = true := by
                                rw [Option.map_eq_some_iff] at hpeer
                                obtain ⟨peer, hpeer, -⟩ := hpeer
                                exact List.any_eq_true.mpr ⟨k, hk, by rw [hpeer]; rfl⟩
                              simp_all
                          · next hnone =>
                              have hin : service.inBannedRange addr = false := by
                                rw [Service.inBannedRange, List.any_eq_false]
                                intro k hk
                                have := List.findSome?_eq_none_iff.mp hnone k hk
                                rw [Option.map_eq_none_iff] at this
                                simp [this]
                              split
                              · next hpeer => simp_all
                              · next hpeer => simp_all

/-- The decision under the blacklist flag, as a proposition. -/
theorem isAddressAccepted_iff {service : Service} {dAddr : SockAddr} {addr : Ipv4}
    {port : BitVec 16} (hon : service.mIPFilteringEnabled)
    (hipv4 : dAddr.ipv6ToIpv4 = some (addr, port)) (hloop : ¬ addr.isLoopbackNet) :
    (service.isAddressAccepted dAddr checkingFlagsBlacklist).1 = true ↔
      service.isWhiteListed addr = true ∨
        ((¬ ∃ k ∈ [makeBitsRange addr 2, makeBitsRange addr 1, makeBitsRange addr 0],
          (service.bannedRange? k).isSome) ∧
        (service.bannedAddress? addr).isSome = false) := by
  have hwhite : checkingFlagsBlacklist &&& checkingFlagsWhitelist = 0 := by decide
  have hblack : ¬ checkingFlagsBlacklist = 0#32 := by decide
  rw [isAddressAccepted_fst, hipv4, ← List.any_eq_true, BitVec.and_self]
  simp [hon, hloop, hwhite, hblack, Service.inBannedRange]

theorem Watched.Tracks.decidesByRanges {watched : Watched} (htracks : watched.Tracks) :
    watched.DecidesByRanges := by
  intro hon dAddr addr port hipv4 hloop
  rw [isAddressAccepted_iff hon hipv4 hloop, htracks.banned_iff,
    htracks.white.isWhiteListed_iff addr, Watched.Passes]
  refine or_congr Iff.rfl (and_congr ?_ ?_)
  · push Not
    exact Iff.rfl
  · rw [Service.bannedAddress?, Option.isSome_filter, Bool.eq_false_iff, ne_eq,
      Option.any_eq_true]
    push Not
    exact Iff.rfl

/-! ### One call -/

/-- Reports do not touch the two maps. -/
theorem addBanEntry_ranges (service : Service) (now : Int) (peerId : RsPeerId) (dAddr : SockAddr)
    (level reason : BitVec 32) (timeStamp : Int) :
    let after := (service.addBanEntry now peerId dAddr level reason timeStamp).2
    after.mBanRanges = service.mBanRanges ∧
      after.mWhiteListedRanges = service.mWhiteListedRanges := by
  unfold Service.addBanEntry
  split
  · exact ⟨rfl, rfl⟩
  · dsimp only
    split
    · exact ⟨rfl, rfl⟩
    · split
      · exact ⟨rfl, rfl⟩
      · split <;> exact ⟨rfl, rfl⟩

theorem recvBanItem_ranges (service : Service) (now : Int) (peerId : RsPeerId)
    (entries : List BanListEntry) :
    (service.recvBanItem now peerId entries).2.mBanRanges = service.mBanRanges ∧
      (service.recvBanItem now peerId entries).2.mWhiteListedRanges =
        service.mWhiteListedRanges := by
  unfold Service.recvBanItem
  induction entries using List.reverseRecOn with
  | nil => exact ⟨rfl, rfl⟩
  | append_singleton entries entry ih =>
      rw [List.foldl_append, List.foldl_cons, List.foldl_nil]
      obtain ⟨hblack, hwhite⟩ := addBanEntry_ranges (List.foldl _ (false, service) entries).2 now
        peerId entry.addr entry.level entry.reason (now - entry.age.toNat)
      exact ⟨hblack.trans ih.1, hwhite.trans ih.2⟩

theorem processIncoming_ranges (service : Service) (now : Int)
    (items : List (RsPeerId × List BanListEntry)) :
    (service.processIncoming now items).mBanRanges = service.mBanRanges ∧
      (service.processIncoming now items).mWhiteListedRanges = service.mWhiteListedRanges := by
  have hitems : (service.recvBanItems now items).2.mBanRanges = service.mBanRanges ∧
      (service.recvBanItems now items).2.mWhiteListedRanges = service.mWhiteListedRanges := by
    unfold Service.recvBanItems
    induction items using List.reverseRecOn with
    | nil => exact ⟨rfl, rfl⟩
    | append_singleton items item ih =>
        rw [List.foldl_append, List.foldl_cons, List.foldl_nil]
        obtain ⟨hblack, hwhite⟩ := recvBanItem_ranges (List.foldl _ (false, service) items).2 now
          item.1 item.2
        exact ⟨hblack.trans ih.1, hwhite.trans ih.2⟩
  unfold Service.processIncoming
  dsimp only
  split <;> exact hitems

theorem getDhtInfo_ranges (service : Service) (now : Int) (filteredPeers : List (Ipv4 × Int)) :
    (service.getDhtInfo now filteredPeers).mBanRanges = service.mBanRanges ∧
      (service.getDhtInfo now filteredPeers).mWhiteListedRanges = service.mWhiteListedRanges := by
  unfold Service.getDhtInfo Service.condenseBanSources
  induction filteredPeers using List.reverseRecOn with
  | nil => exact ⟨rfl, rfl⟩
  | append_singleton peers peer ih =>
      rw [List.foldl_append, List.foldl_cons, List.foldl_nil]
      obtain ⟨hblack, hwhite⟩ := addBanEntry_ranges (List.foldl _ service peers) now
        (List.foldl _ service peers).ownId (.inet peer.1 0) originSelf reasonDht peer.2
      exact ⟨hblack.trans ih.1, hwhite.trans ih.2⟩

/-- A query at most moves a counter. -/
theorem isAddressAccepted_cases (service : Service) (dAddr : SockAddr)
    (checkingFlags : BitVec 32) :
    let after := (service.isAddressAccepted dAddr checkingFlags).2.2
    after = service ∨
      (∃ (k : Ipv4) (peer : BanListPeer), service.mBanRanges[k]? = some peer ∧
        after = { service with mBanRanges := service.mBanRanges.insert k peer.attempt }) ∨
      ∃ (addr : Ipv4) (peer : BanListPeer), service.mBanSet[addr]? = some peer ∧
        after = { service with mBanSet := service.mBanSet.insert addr peer.attempt } := by
  unfold Service.isAddressAccepted
  split
  · exact .inl rfl
  · split
    · exact .inl rfl
    · split
      · exact .inl rfl
      · split
        · exact .inl rfl
        · split
          · exact .inl rfl
          · split
            · exact .inl rfl
            · split
              · next hfound =>
                  obtain ⟨k, -, hpeer⟩ := List.exists_of_findSome?_eq_some hfound
                  rw [Option.map_eq_some_iff] at hpeer
                  obtain ⟨peer, hpeer, heq⟩ := hpeer
                  rw [Service.bannedRange?, Option.filter_eq_some_iff] at hpeer
                  refine .inr (.inl ⟨k, peer, hpeer.1, ?_⟩)
                  obtain ⟨rfl, rfl⟩ := Prod.mk.inj heq
                  rfl
              · split
                · next peer hpeer =>
                    rw [Service.bannedAddress?, Option.filter_eq_some_iff] at hpeer
                    exact .inr (.inr ⟨_, peer, hpeer.1, rfl⟩)
                · exact .inl rfl

/-- The call keeps ranges apart: it lists plain ranges only, and a removal finds no range under the
key of the one it names but that one. -/
def Watched.Apart (watched : Watched) : Op → Prop
  | .addIpRange _ dAddr maskedBytes listType =>
      ∀ addr port mask, dAddr.ipv6ToIpv4 = some (addr, port) →
        IpRange.maskOf maskedBytes = some mask → rangeAccepted addr maskedBytes →
          listType = typeBlacklist ∨ listType = typeWhitelist → (IpRange.around addr mask).Plain
  | .removeIpRange _ dAddr maskedBytes listType =>
      ∀ addr port, dAddr.ipv6ToIpv4 = some (addr, port) → ∀ range : IpRange,
        (listType = typeBlacklist ∧ watched.listed.black range ≠ none) ∨
          (listType = typeWhitelist ∧ watched.listed.white range ≠ none) →
        range.key = makeBitsRange addr maskedBytes →
          (IpRange.maskOf maskedBytes).map (IpRange.around addr) = some range
  | .enableAutoRange _ b => b → ∀ range : IpRange, ¬ range.Plain → ¬ watched.service.Crowded range
  | .setAutoRangeLimit _ n => watched.service.mAutoRangeIps → ∀ range : IpRange, ¬ range.Plain →
      ¬ { watched.service with mAutoRangeLimit := n }.Crowded range
  | .autoFigureOutBanRanges _ => watched.service.mAutoRangeIps → ∀ range : IpRange,
      ¬ range.Plain → ¬ watched.service.Crowded range
  | _ => True

theorem maskOf_eq_some {maskedBytes : Int} {mask : Nat}
    (hmask : IpRange.maskOf maskedBytes = some mask) : maskedBytes = mask ∧ mask ≤ 2 := by
  unfold IpRange.maskOf at hmask
  split at hmask
  · cases hmask
    exact ⟨by assumption, by decide⟩
  · split at hmask
    · cases hmask
      exact ⟨by assumption, by decide⟩
    · split at hmask
      · cases hmask
        exact ⟨by assumption, by decide⟩
      · cases hmask

theorem rangeAccepted_eq_false {addr : Ipv4} {maskedBytes : Int}
    (hmask : IpRange.maskOf maskedBytes = none) : rangeAccepted addr maskedBytes = false := by
  unfold IpRange.maskOf at hmask
  split at hmask
  · cases hmask
  · split at hmask
    · cases hmask
    · split at hmask
      · cases hmask
      · simp_all [rangeAccepted]

/-- Erasing a key is removing the range asked for, if that is a range at all. -/
theorem Represents.removeKey {ranges : OrderedMap Ipv4 BanListPeer} {list : RangeList}
    (hrep : Represents ranges list) {addr : Ipv4} {maskedBytes : Int}
    (honly : ∀ range : IpRange, list range ≠ none → range.key = makeBitsRange addr maskedBytes →
      (IpRange.maskOf maskedBytes).map (IpRange.around addr) = some range) :
    Represents (ranges.erase (makeBitsRange addr maskedBytes))
      (match IpRange.maskOf maskedBytes with
        | some mask => list.remove (.around addr mask)
        | none => list) := by
  cases hmask : IpRange.maskOf maskedBytes with
  | none =>
      rw [hmask] at honly
      have herased := hrep.erase (makeBitsRange addr maskedBytes) (fun _ => False)
        (fun _ h => h.elim) (fun range hlisted hkey => absurd (honly range hlisted hkey) nofun)
      simpa using herased
  | some mask =>
      obtain ⟨rfl, hle⟩ := maskOf_eq_some hmask
      rw [hmask] at honly
      refine hrep.erase _ (fun range => range = .around addr mask) ?_ ?_
      · rintro range rfl
        exact IpRange.key_around addr hle
      · intro range hlisted hkey
        exact (Option.some.inj (honly range hlisted hkey)).symm

theorem Watched.Tracks.autoFigureOut {service : Service} {listed : Listed}
    (htracks : Watched.Tracks ⟨service, listed⟩) (now : Int)
    (hapart : service.mAutoRangeIps → ∀ range : IpRange, ¬ range.Plain → ¬ service.Crowded range) :
    Watched.Tracks ⟨service.autoFigureOutBanRanges now, listed.autoFigureOut service⟩ where
  white := by
    have hwhite : (service.autoFigureOutBanRanges now).mWhiteListedRanges =
        service.mWhiteListedRanges := by
      unfold Service.autoFigureOutBanRanges
      dsimp only
      split <;> rfl
    exact hwhite ▸ htracks.white
  black := htracks.black.autoFigureOut now hapart

theorem Watched.Tracks.congr {service after : Service} {listed : Listed}
    (htracks : Watched.Tracks ⟨service, listed⟩)
    (hsame : after.mBanRanges = service.mBanRanges ∧
      after.mWhiteListedRanges = service.mWhiteListedRanges) : Watched.Tracks ⟨after, listed⟩ :=
  ⟨hsame.2 ▸ htracks.white, hsame.1 ▸ htracks.black⟩

/-- **One call.** The two maps go on representing the two lists. -/
theorem Watched.Tracks.step {watched after : Watched} {op : Op} (htracks : watched.Tracks)
    (hapart : watched.Apart op) (hstep : watched.step op = some after) : after.Tracks := by
  obtain ⟨service, listed⟩ := watched
  rw [← Option.some.inj hstep]
  cases op with
  | addIpRange now dAddr maskedBytes listType =>
      dsimp only [Service.run, Listed.run, Service.addIpRange]
      cases hipv4 : dAddr.ipv6ToIpv4 with
      | none => exact htracks
      | some found =>
          obtain ⟨addr, port⟩ := found
          cases hmask : IpRange.maskOf maskedBytes with
          | none => simpa [rangeAccepted_eq_false hmask] using htracks
          | some mask =>
              obtain ⟨rfl, hle⟩ := maskOf_eq_some hmask
              by_cases haccepted : rangeAccepted addr mask
              · have hplain := hapart addr port mask hipv4 hmask haccepted
                by_cases hblack : listType = typeBlacklist
                · simp only [haccepted, hblack, Bool.not_true, Bool.false_eq_true, if_false,
                    if_true, Int.toNat_natCast]
                  exact ⟨htracks.white, htracks.black.add hle (hplain (.inl hblack)) rfl⟩
                · by_cases hwhite : listType = typeWhitelist
                  · have hne : ¬ typeWhitelist = typeBlacklist := by decide
                    simp only [haccepted, hwhite, hne, Bool.not_true, Bool.false_eq_true, if_false,
                      if_true, Int.toNat_natCast]
                    exact ⟨htracks.white.add hle (hplain (.inr hwhite)) rfl, htracks.black⟩
                  · simpa [haccepted, hblack, hwhite] using htracks
              · simpa [haccepted] using htracks
  | removeIpRange now dAddr maskedBytes listType =>
      dsimp only [Service.run, Listed.run, Service.removeIpRange]
      cases hipv4 : dAddr.ipv6ToIpv4 with
      | none => exact htracks
      | some found =>
          obtain ⟨addr, port⟩ := found
          have honly := hapart addr port hipv4
          by_cases hblack : listType = typeBlacklist
          · have hremoved := htracks.black.removeKey fun range hlisted =>
              honly range (.inl ⟨hblack, hlisted⟩)
            simp only [hblack, if_true]
            cases hmask : IpRange.maskOf maskedBytes with
            | none =>
                rw [hmask] at hremoved
                exact ⟨htracks.white, hremoved⟩
            | some mask =>
                rw [hmask] at hremoved
                exact ⟨htracks.white, hremoved⟩
          · by_cases hwhite : listType = typeWhitelist
            · have hremoved := htracks.white.removeKey fun range hlisted =>
                honly range (.inr ⟨hwhite, hlisted⟩)
              have hne : ¬ typeWhitelist = typeBlacklist := by decide
              simp only [hwhite, hne, if_true, if_false]
              cases hmask : IpRange.maskOf maskedBytes with
              | none =>
                  rw [hmask] at hremoved
                  exact ⟨hremoved, htracks.black⟩
              | some mask =>
                  rw [hmask] at hremoved
                  exact ⟨hremoved, htracks.black⟩
            · simp only [hblack, hwhite, if_false]
              cases IpRange.maskOf maskedBytes <;> exact htracks.congr ⟨rfl, rfl⟩
  | addBanEntry now peerId addr level reason timeStamp =>
      exact htracks.congr (addBanEntry_ranges ..)
  | enableAutoRange now b =>
      have hon : Watched.Tracks ⟨{ service with mAutoRangeIps := b }, listed⟩ :=
        htracks.congr ⟨rfl, rfl⟩
      exact hon.autoFigureOut now hapart
  | setAutoRangeLimit now n =>
      have hlimit : Watched.Tracks ⟨{ service with mAutoRangeLimit := n }, listed⟩ :=
        htracks.congr ⟨rfl, rfl⟩
      exact hlimit.autoFigureOut now hapart
  | autoFigureOutBanRanges now => exact htracks.autoFigureOut now hapart
  | isAddressAccepted addr checkingFlags =>
      obtain hsame | ⟨k, peer, hpeer, hattempt⟩ | ⟨banned, peer, -, hattempt⟩ :=
        isAddressAccepted_cases service addr checkingFlags
      · rwa [Service.run, hsame]
      · rw [Service.run, hattempt]
        exact ⟨htracks.white, htracks.black.attempt hpeer⟩
      · rw [Service.run, hattempt]
        exact htracks.congr ⟨rfl, rfl⟩
  | processIncoming now items => exact htracks.congr (processIncoming_ranges ..)
  | getDhtInfo now filteredPeers => exact htracks.congr (getDhtInfo_ranges ..)
  | updatePeer now addr timeStamp =>
      refine htracks.congr ?_
      dsimp only [Service.run, Service.updatePeer]
      split
      · exact ⟨rfl, rfl⟩
      · exact addBanEntry_ranges ..
  | enableIPFiltering b => exact htracks.congr ⟨rfl, rfl⟩
  | enableIPsFromFriends b => exact htracks.congr ⟨rfl, rfl⟩
  | enableIPsFromDHT b => exact htracks.congr ⟨rfl, rfl⟩

/-- **Decisions by ranges.** After any run that keeps ranges apart, an address is accepted exactly
if it is whitelisted, or in no blacklisted range in effect and not itself banned. -/
theorem decidesByRanges_of_reaches {ownId : RsPeerId} {watched : Watched}
    (hreach : Reaches Watched.step Watched.Apart (.new ownId) watched) :
    watched.DecidesByRanges :=
  (hreach.invariant Watched.Tracks (fun _ _ _ => Watched.Tracks.step)
    (tracks_new ownId)).decidesByRanges

/-! ### One blacklisted range -/

/-- The user has blacklisted the /24 around an address. -/
def afterBlacklisting (ip : Ipv4) : Watched :=
  let op : Op := .addIpRange 0 (.inet ip 0) 1 typeBlacklist
  ⟨(Service.new 0).run op, (Watched.new 0).listed.run (Service.new 0) op⟩

theorem step_afterBlacklisting (ip : Ipv4) :
    (Watched.new 0).step (.addIpRange 0 (.inet ip 0) 1 typeBlacklist) =
      some (afterBlacklisting ip) := rfl

theorem decidesByRanges_sample : (afterBlacklisting ⟨1, 2, 3, 0⟩).DecidesByRanges := by
  refine decidesByRanges_of_reaches
    (.next _ (.refl _) ?_ (step_afterBlacklisting ⟨1, 2, 3, 0⟩))
  intro addr port mask hipv4 hmask _ _
  cases hipv4
  cases hmask
  decide

/-- 1.2.255.0/24 is filed under 1.2.255.255, and so is 1.2.0.0/16. -/
theorem decidesByRanges_counterexample :
    ¬ ∀ watched : Watched, Reaches Watched.step (fun _ _ => True) (.new 0) watched →
      watched.DecidesByRanges := by
  intro hall
  have hdecides := hall _ (.next _ (.refl _) trivial (step_afterBlacklisting ⟨1, 2, 255, 0⟩))
  have hrejected : ((afterBlacklisting ⟨1, 2, 255, 0⟩).service.isAddressAccepted
      (.inet ⟨1, 2, 3, 4⟩ 0) checkingFlagsBlacklist).1 = false := by
    decide
  have hpasses : (afterBlacklisting ⟨1, 2, 255, 0⟩).Passes ⟨1, 2, 3, 4⟩ := by
    refine .inr ⟨?_, fun peer hpeer => absurd hpeer nofun⟩
    intro range hcontains heffect
    have hblack : (afterBlacklisting ⟨1, 2, 255, 0⟩).listed.black =
        RangeList.empty.add ⟨1, 2, 255, 0⟩ 1 := rfl
    have hrange : (RangeList.empty.add ⟨1, 2, 255, 0⟩ 1) range ≠ none := by
      rw [Watched.InEffect, hblack] at heffect
      obtain huser | ⟨hauto, -⟩ := heffect
      · rw [huser]
        nofun
      · rw [hauto]
        nofun
    unfold RangeList.add at hrange
    split at hrange
    · next heq =>
        rw [heq] at hcontains
        exact absurd hcontains (by decide)
    · split at hrange <;> exact hrange rfl
  have haccepted := (hdecides rfl (.inet ⟨1, 2, 3, 4⟩ 0) _ 0 rfl (by decide)).mpr hpasses
  rw [hrejected] at haccepted
  cases haccepted

end RetroShare.BanList
