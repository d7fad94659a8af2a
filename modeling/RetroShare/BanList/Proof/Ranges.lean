import RetroShare.BanList.Ranges

/-!
# The filter decides by ranges

As long as only plain ranges are listed, each address is the key of one range at most, and the maps
of the service are the two lists under other names. A /24 whose third byte is 255 shares the key of
the /16 around it, and a full address ending in 255 that of its /24: listing the first, or removing
the second, is what makes the filter decide about other addresses.
-/

namespace RetroShare.BanList

open Transition

/-! ### One map and one list -/

def BanListPeer.origin (peer : BanListPeer) : Origin :=
  if peer.reason = reasonUser then .user else .auto

/-- The map holds the listed ranges, each under its key. -/
structure Represents (ranges : OrderedMap Ipv4 BanListPeer) (list : RangeList) : Prop where
  plain : ∀ range, list range ≠ none → range.Plain
  lookup : ∀ range : IpRange, range.Plain → list range = (ranges[range.key]?).map (·.origin)
  reasons : ∀ (k : Ipv4) (peer : BanListPeer), ranges[k]? = some peer →
    peer.reason = reasonUser ∨ peer.reason = reasonAutoRange

theorem represents_empty : Represents ∅ RangeList.empty where
  plain _ hlisted := absurd rfl hlisted
  lookup _ _ := by simp [RangeList.empty]
  reasons _ _ hpeer := by simp at hpeer

section Maps

variable {ranges : OrderedMap Ipv4 BanListPeer} {list : RangeList}

/-- What is found under a key is a listed range. -/
theorem Represents.found (hrep : Represents ranges list) {k : Ipv4} {peer : BanListPeer}
    (hpeer : ranges[k]? = some peer) : list (IpRange.ofKey k) = some peer.origin := by
  rw [hrep.lookup _ (IpRange.plain_ofKey k), IpRange.key_ofKey, hpeer, Option.map_some]

theorem Represents.listed_iff (hrep : Represents ranges list) (origin : Origin) (x : Ipv4) :
    (∃ range, list range = some origin ∧ range.Contains x) ↔
      ∃ k ∈ [makeBitsRange x 2, makeBitsRange x 1, makeBitsRange x 0],
        ∃ peer, ranges[k]? = some peer ∧ peer.origin = origin := by
  constructor
  · rintro ⟨range, hlisted, hcontains⟩
    have hplain : range.Plain := hrep.plain range (by simp [hlisted])
    rw [hrep.lookup range hplain, Option.map_eq_some_iff] at hlisted
    exact ⟨range.key, by simpa using (IpRange.contains_iff hplain x).mp hcontains, hlisted⟩
  · rintro ⟨k, hk, peer, hpeer, rfl⟩
    refine ⟨IpRange.ofKey k, hrep.found hpeer, ?_⟩
    rw [IpRange.contains_iff (IpRange.plain_ofKey k), IpRange.key_ofKey]
    simpa using hk

/-! ### Adding and removing -/

theorem lookup_addRange (addr : Ipv4) (mask : Nat) (peer : BanListPeer) (k : Ipv4) :
    (addRange ranges addr mask peer)[k]? =
      if makeBitsRange addr mask = k then some peer
      else if ∃ narrower < mask, makeBitsRange addr narrower = k then none
      else ranges[k]? := by
  have herase : ∀ count : Nat, ((List.range count).foldl
      (fun banlist (index : Nat) => banlist.erase (makeBitsRange addr index)) ranges)[k]? =
        if ∃ narrower < count, makeBitsRange addr narrower = k then none else ranges[k]? := by
    intro count
    induction count with
    | zero => simp
    | succ count ih =>
        rw [List.range_succ, List.foldl_append, List.foldl_cons, List.foldl_nil,
          OrderedMap.lookup_erase, ih]
        by_cases hlast : makeBitsRange addr count = k
        · rw [if_pos hlast, if_pos ⟨count, Nat.lt_succ_self _, hlast⟩]
        · have hsame : (∃ narrower < count + 1, makeBitsRange addr narrower = k) ↔
              ∃ narrower < count, makeBitsRange addr narrower = k := by
            constructor
            · rintro ⟨narrower, hlt, heq⟩
              have hne : narrower ≠ count := fun h => hlast (h ▸ heq)
              exact ⟨narrower, by omega, heq⟩
            · rintro ⟨narrower, hlt, heq⟩
              exact ⟨narrower, by omega, heq⟩
          simp only [hlast, if_false, hsame]
  rw [addRange, OrderedMap.lookup_insert, herase]
  congr

/-- A plain range filed under a narrower key of the address is one of the narrower ranges around
it, when the wider range is plain and another. -/
theorem around_of_key {addr : Ipv4} {mask narrower : Nat} {range : IpRange} (hmask : mask ≤ 2)
    (hwider : (IpRange.around addr mask).Plain) (hplain : range.Plain) (hlt : narrower < mask)
    (hkey : makeBitsRange addr narrower = range.key) (hne : range ≠ .around addr mask) :
    ∃ other < mask, range = .around addr other := by
  have hrange : range = IpRange.ofKey (makeBitsRange addr narrower) := by
    rw [hkey, IpRange.ofKey_key hplain]
  obtain ⟨rfl, rfl⟩ | ⟨rfl, rfl | rfl⟩ :
      (mask = 1 ∧ narrower = 0) ∨ (mask = 2 ∧ (narrower = 0 ∨ narrower = 1)) := by omega
  · -- a host, its /24 plain
    have hc : addr.c ≠ 255 := hwider
    by_cases hd : addr.d = 255
    · exact absurd (by simp [hrange, IpRange.ofKey, IpRange.around, makeBitsRange, hc, hd]) hne
    · exact ⟨0, by omega, by simp [hrange, IpRange.ofKey, IpRange.around, makeBitsRange, hd]⟩
  · by_cases hd : addr.d = 255
    · by_cases hc : addr.c = 255
      · exact absurd (by simp [hrange, IpRange.ofKey, IpRange.around, makeBitsRange, hc, hd]) hne
      · exact ⟨1, by omega, by simp [hrange, IpRange.ofKey, IpRange.around, makeBitsRange, hc, hd]⟩
    · exact ⟨0, by omega, by simp [hrange, IpRange.ofKey, IpRange.around, makeBitsRange, hd]⟩
  · by_cases hc : addr.c = 255
    · exact absurd (by simp [hrange, IpRange.ofKey, IpRange.around, makeBitsRange, hc]) hne
    · exact ⟨1, by omega, by simp [hrange, IpRange.ofKey, IpRange.around, makeBitsRange, hc]⟩

theorem Represents.add (hrep : Represents ranges list) {addr : Ipv4} {mask : Nat}
    {peer : BanListPeer} (hmask : mask ≤ 2) (hplain : (IpRange.around addr mask).Plain)
    (huser : peer.reason = reasonUser) :
    Represents (addRange ranges addr mask peer) (list.add addr mask) where
  plain range hlisted := by
    unfold RangeList.add at hlisted
    split at hlisted
    · next heq => rwa [heq]
    · split at hlisted
      · exact absurd rfl hlisted
      · exact hrep.plain range hlisted
  lookup range hrange := by
    rw [lookup_addRange, RangeList.add]
    by_cases hnew : range = .around addr mask
    · rw [if_pos hnew, hnew, IpRange.key_around addr hmask, if_pos rfl, Option.map_some,
        BanListPeer.origin, if_pos huser]
    · have hother : makeBitsRange addr mask ≠ range.key := by
        intro hkey
        rw [← IpRange.key_around addr hmask] at hkey
        exact hnew (IpRange.key_inj hrange hplain hkey.symm)
      rw [if_neg hnew, if_neg hother]
      by_cases hnarrow : ∃ narrower < mask, range = .around addr narrower
      · have hkey : ∃ narrower < mask, makeBitsRange addr narrower = range.key := by
          obtain ⟨narrower, hlt, heq⟩ := hnarrow
          exact ⟨narrower, hlt, by rw [heq, IpRange.key_around addr (by omega)]⟩
        rw [if_pos hnarrow, if_pos hkey, Option.map_none]
      · have hkey : ¬ ∃ narrower < mask, makeBitsRange addr narrower = range.key := by
          rintro ⟨narrower, hlt, hkey⟩
          exact hnarrow (around_of_key hmask hplain hrange hlt hkey hnew)
        rw [if_neg hnarrow, if_neg hkey, hrep.lookup range hrange]
  reasons k known hknown := by
    rw [lookup_addRange] at hknown
    split at hknown
    · rw [← Option.some.inj hknown]
      exact .inl huser
    · split at hknown
      · cases hknown
      · exact hrep.reasons k known hknown

/-- Erasing a key removes the range that was asked for, if no other range is listed there. -/
theorem Represents.erase (hrep : Represents ranges list) (k : Ipv4) (asked : IpRange → Prop)
    [DecidablePred asked] (hasked : ∀ range, asked range → range.key = k)
    (honly : ∀ range, list range ≠ none → range.key = k → asked range) :
    Represents (ranges.erase k) (fun range => if asked range then none else list range) where
  plain range hlisted := by
    split at hlisted
    · exact absurd rfl hlisted
    · exact hrep.plain range hlisted
  lookup range hrange := by
    rw [OrderedMap.lookup_erase]
    by_cases hthis : asked range
    · rw [if_pos hthis, if_pos (hasked range hthis).symm, Option.map_none]
    · rw [if_neg hthis, hrep.lookup range hrange]
      split
      · next hkey =>
          have hnone : list range = none := by
            by_contra hlisted
            exact hthis (honly range hlisted hkey.symm)
          rw [← hrep.lookup range hrange, hnone, Option.map_none]
      · rfl
  reasons k' peer hpeer := by
    rw [OrderedMap.lookup_erase] at hpeer
    split at hpeer
    · cases hpeer
    · exact hrep.reasons k' peer hpeer

/-- A counter moves. -/
theorem Represents.attempt (hrep : Represents ranges list) {k : Ipv4} {peer : BanListPeer}
    (hpeer : ranges[k]? = some peer) : Represents (ranges.insert k peer.attempt) list where
  plain := hrep.plain
  lookup range hrange := by
    rw [hrep.lookup range hrange, OrderedMap.lookup_insert]
    split
    · next hkey =>
        rw [← hkey, hpeer]
        rfl
    · rfl
  reasons k' other hother := by
    rw [OrderedMap.lookup_insert] at hother
    split at hother
    · rw [← Option.some.inj hother]
      exact hrep.reasons k peer hpeer
    · exact hrep.reasons k' other hother

end Maps

/-! ### Automatic ranges -/

/-- Entries of `mBanSet` counted for the range key `k`. -/
def Service.underKey (service : Service) (k : Ipv4) : Nat :=
  (service.mBanSet.toList.filter fun entry => makeBitsRange entry.1 1 = k).length

theorem lookup_rangeMap (service : Service) (k : Ipv4) :
    service.rangeMap[k]? =
      if service.underKey k = 0 then none else some (service.underKey k) := by
  unfold Service.rangeMap Service.underKey
  induction service.mBanSet.toList using List.reverseRecOn with
  | nil => simp
  | append_singleton entries entry ih =>
      rw [List.foldl_append, List.foldl_cons, List.foldl_nil, OrderedMap.lookup_insert]
      rw [List.filter_append, List.length_append]
      generalize hn : (entries.filter fun entry => makeBitsRange entry.1 1 = k).length = n at ih
      by_cases hkey : makeBitsRange entry.1 1 = k
      · simp only [hkey, if_true, ih, List.filter_singleton, decide_true, cond_true,
          List.length_singleton]
        by_cases hzero : n = 0 <;> simp [hzero]
      · simp only [hkey, if_false, ih, List.filter_singleton, decide_false, cond_false,
          List.length_nil, Nat.add_zero]

/-- What `createRange` leaves under the key of the entry. -/
def Service.created (service : Service) (now : Int) (k : Ipv4) (n : Nat)
    (before : Option BanListPeer) : Option BanListPeer :=
  if n < service.mAutoRangeLimit.toNat ∨ before.map (·.reason) = some reasonUser then before
  else some ⟨k, reasonAutoRange, originSelf, n, now⟩

theorem lookup_createRange (service : Service) (now : Int)
    (ranges : OrderedMap Ipv4 BanListPeer) (entry : Ipv4 × Nat) (k : Ipv4) :
    (service.createRange now ranges entry)[k]? =
      if entry.1 = k then service.created now k entry.2 ranges[k]? else ranges[k]? := by
  unfold Service.createRange Service.created
  by_cases hkey : entry.1 = k
  · rw [if_pos hkey, hkey]
    by_cases hfew : entry.2 < service.mAutoRangeLimit.toNat
    · simp [hfew]
    · by_cases huser : ranges[k]?.map (·.reason) = some reasonUser
      · simp [huser]
      · simp only [hfew, huser, if_false, or_self, OrderedMap.lookup_insert_self]
  · rw [if_neg hkey]
    split
    · rfl
    · split
      · rfl
      · exact OrderedMap.lookup_insert_ne _ _ hkey

theorem lookup_createRanges (service : Service) (now : Int) (k : Ipv4)
    (entries : List (Ipv4 × Nat)) (ranges : OrderedMap Ipv4 BanListPeer)
    (hnodup : (entries.map Prod.fst).Nodup) :
    ((∀ n, (k, n) ∉ entries) →
      (entries.foldl (service.createRange now) ranges)[k]? = ranges[k]?) ∧
    ∀ n, (k, n) ∈ entries →
      (entries.foldl (service.createRange now) ranges)[k]? =
        service.created now k n ranges[k]? := by
  induction entries generalizing ranges with
  | nil => simp
  | cons entry entries ih =>
      rw [List.map_cons, List.nodup_cons] at hnodup
      obtain ⟨habsent, hpresent⟩ := ih (service.createRange now ranges entry) hnodup.2
      rw [List.foldl_cons]
      constructor
      · intro hnone
        have hkey : entry.1 ≠ k := by
          intro heq
          exact hnone entry.2 (by rw [← heq]; exact List.mem_cons_self)
        rw [habsent fun n hmem => hnone n (List.mem_cons_of_mem _ hmem), lookup_createRange,
          if_neg hkey]
      · intro n hmem
        obtain heq | hmem := List.mem_cons.mp hmem
        · have hrest : ∀ m, (k, m) ∉ entries := by
            intro m hm
            apply hnodup.1
            rw [← heq]
            exact List.mem_map.mpr ⟨(k, m), hm, rfl⟩
          rw [habsent hrest, lookup_createRange, ← heq, if_pos rfl]
        · have hkey : entry.1 ≠ k := by
            intro heq
            apply hnodup.1
            rw [heq]
            exact List.mem_map.mpr ⟨(k, n), hmem, rfl⟩
          rw [hpresent n hmem, lookup_createRange, if_neg hkey]

/-- The ranges after `autoFigureOutBanRanges`, key by key. -/
theorem lookup_autoFigureOut (service : Service) (now : Int) (k : Ipv4) :
    (service.autoFigureOutBanRanges now).mBanRanges[k]? =
      let kept := service.mBanRanges[k]?.filter fun peer => peer.reason ≠ reasonAutoRange
      if service.mAutoRangeIps ∧ service.underKey k ≠ 0 then
        service.created now k (service.underKey k) kept
      else kept := by
  have hkept : service.clearAutoRanges.mBanRanges[k]? =
      service.mBanRanges[k]?.filter fun peer => peer.reason ≠ reasonAutoRange :=
    OrderedMap.lookup_filter _ _ k
  have hmap : service.clearAutoRanges.rangeMap[k]? =
      if service.underKey k = 0 then none else some (service.underKey k) :=
    lookup_rangeMap service k
  obtain ⟨habsent, hpresent⟩ := lookup_createRanges service.clearAutoRanges now k
    service.clearAutoRanges.rangeMap.toList service.clearAutoRanges.mBanRanges
    (OrderedMap.nodup_keys_toList _)
  unfold Service.autoFigureOutBanRanges
  by_cases hon : service.mAutoRangeIps
  · have hoff : (!service.clearAutoRanges.mAutoRangeIps) = false := by
      simp [Service.clearAutoRanges, hon]
    simp only [hoff, Bool.false_eq_true, if_false, Service.condenseBanSources,
      Service.createRanges, hon, true_and]
    by_cases hzero : service.underKey k = 0
    · rw [if_pos hzero] at hmap
      rw [if_neg (not_not_intro hzero), habsent, hkept]
      intro n hn
      rw [OrderedMap.mem_toList, hmap] at hn
      cases hn
    · rw [if_neg hzero] at hmap
      rw [if_pos hzero, hpresent _ ((OrderedMap.mem_toList _).mpr hmap), hkept]
      rfl
  · have hoff : (!service.clearAutoRanges.mAutoRangeIps) = true := by
      simp [Service.clearAutoRanges, hon]
    simp only [hoff, if_true, hon, Bool.false_eq_true, false_and, if_false]
    exact hkept

/-- Under the key of a plain range, the entries counted are those of the range. -/
theorem crowded_iff {service : Service} {range : IpRange} (hplain : range.Plain)
    (hapart : ∀ other : IpRange, ¬ other.Plain → ¬ service.Crowded other) :
    service.Crowded range ↔ service.underKey range.key ≠ 0 ∧
      service.mAutoRangeLimit.toNat ≤ service.underKey range.key := by
  have hcount : ∀ a b c : UInt8, service.underKey ⟨a, b, c, 255⟩ =
      service.bannedIn (.net24 a b c) := by
    intro a b c
    unfold Service.underKey Service.bannedIn
    congr 2
    funext entry
    exact decide_eq_decide.mpr (by simp [makeBitsRange, IpRange.Contains, Ipv4.ext_iff])
  cases range with
  | host addr =>
      have hd : addr.d ≠ 255 := hplain
      have hnone : service.underKey addr = 0 := by
        rw [Service.underKey, List.length_eq_zero_iff, List.filter_eq_nil_iff]
        intro entry _ hkey
        apply hd
        rw [← of_decide_eq_true hkey]
        rfl
      simp [Service.Crowded, IpRange.key, hnone]
  | net24 a b c => rw [IpRange.key, hcount, ← Nat.pos_iff_ne_zero]; rfl
  | net16 a b =>
      have hfew := hapart (.net24 a b 255) (by simp [IpRange.Plain])
      rw [IpRange.key, hcount, ← Nat.pos_iff_ne_zero]
      exact iff_of_false id hfew

/-- What is left of the entry under a key, and what takes its place. -/
theorem origin_figured (service : Service) (now : Int) (k : Ipv4) {before : Option BanListPeer}
    (hreasons : ∀ peer : BanListPeer, before = some peer →
      peer.reason = reasonUser ∨ peer.reason = reasonAutoRange) :
    let kept := before.filter fun peer => peer.reason ≠ reasonAutoRange
    kept.map (·.origin) = (if before.map (·.origin) = some .user then some .user else none) ∧
    ∀ n, (service.created now k n kept).map (·.origin) =
      if before.map (·.origin) = some .user then some .user
      else if service.mAutoRangeLimit.toNat ≤ n then some .auto
      else none := by
  have hauto : ¬ reasonAutoRange = reasonUser := by decide
  cases before with
  | none =>
      refine ⟨by simp, fun n => ?_⟩
      by_cases hfew : n < service.mAutoRangeLimit.toNat
      · simp [Service.created, hfew]
      · simp [Service.created, hfew, BanListPeer.origin, hauto, Nat.le_of_not_lt hfew]
  | some peer =>
      obtain hreason | hreason := hreasons peer rfl
      · have hkept : ¬ reasonUser = reasonAutoRange := by decide
        refine ⟨by simp [hreason, hkept, BanListPeer.origin], fun n => ?_⟩
        simp [Service.created, hreason, hkept, BanListPeer.origin]
      · refine ⟨by simp [hreason, hauto, BanListPeer.origin], fun n => ?_⟩
        by_cases hfew : n < service.mAutoRangeLimit.toNat
        · simp [Service.created, hreason, hauto, hfew, BanListPeer.origin, Option.filter,
            Nat.not_le.mpr hfew]
        · simp [Service.created, hreason, hauto, hfew, BanListPeer.origin, Nat.le_of_not_lt hfew]

theorem Represents.autoFigureOut {service : Service} {list : RangeList}
    (hrep : Represents service.mBanRanges list) (now : Int)
    (hapart : service.mAutoRangeIps → ∀ range : IpRange, ¬ range.Plain → ¬ service.Crowded range) :
    Represents (service.autoFigureOutBanRanges now).mBanRanges
      (list.figureOut fun range => service.mAutoRangeIps ∧ service.Crowded range) where
  plain range hlisted := by
    by_contra hplain
    unfold RangeList.figureOut at hlisted
    split at hlisted
    · next huser => exact hplain (hrep.plain range (by simp [huser]))
    · split at hlisted
      · next hcrowded => exact hapart hcrowded.1 range hplain hcrowded.2
      · exact hlisted rfl
  lookup range hplain := by
    obtain ⟨hkept, hcreated⟩ := origin_figured service now range.key
      (hrep.reasons range.key)
    rw [lookup_autoFigureOut, RangeList.figureOut, hrep.lookup range hplain]
    by_cases hon : service.mAutoRangeIps
    · have hcrowded := crowded_iff hplain (hapart hon)
      by_cases hzero : service.underKey range.key = 0
      · have hnot : ¬ service.Crowded range := fun h => (hcrowded.mp h).1 hzero
        simp only [hon, hzero, hnot, hkept, ne_eq, not_true_eq_false, and_false, if_false]
      · simp only [hon, hzero, ne_eq, not_false_eq_true, and_self, if_true, hcreated, hcrowded,
          true_and]
    · simp only [hon, Bool.false_eq_true, false_and, if_false, hkept]
  reasons k peer hpeer := by
    rw [lookup_autoFigureOut] at hpeer
    have hkept : ∀ peer, (service.mBanRanges[k]?.filter fun peer =>
        peer.reason ≠ reasonAutoRange) = some peer → peer.reason = reasonUser := by
      intro peer hpeer
      rw [Option.filter_eq_some_iff, decide_eq_true_eq] at hpeer
      exact (hrep.reasons k peer hpeer.1).resolve_right hpeer.2
    dsimp only at hpeer
    split at hpeer
    · unfold Service.created at hpeer
      split at hpeer
      · exact .inl (hkept peer hpeer)
      · rw [← Option.some.inj hpeer]
        exact .inr rfl
    · exact .inl (hkept peer hpeer)

end RetroShare.BanList
