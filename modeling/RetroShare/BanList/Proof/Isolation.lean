import RetroShare.BanList.Proof.Decisions
import RetroShare.Foundation.Noninterference

/-!
# What friends can do to the filter

With friend gathering off, the reports of friends have no say in decisions as long as they stay
apart from the node's own: at a level of their own above 1, never under the user's reason, and too
few to make an automatic range where the node's own entries would not. Each of the three can be
broken by what a friend sends. The filter as the node's own calls made it is the relation `SameView`
below, which the items of friends leave alone.
-/

namespace RetroShare.BanList

open Noninterference

/-! ### Own and friends' entries -/

/-- The banned address is one of the node's own reports. -/
def OwnIn (banSet : OrderedMap Ipv4 BanListPeer) (addr : Ipv4) : Prop :=
  ∃ peer, banSet[addr]? = some peer ∧ peer.level = 1

instance (banSet : OrderedMap Ipv4 BanListPeer) (addr : Ipv4) : Decidable (OwnIn banSet addr) :=
  match hfound : banSet[addr]? with
  | none => isFalse (by rintro ⟨peer, hpeer, _⟩; simp [hfound] at hpeer)
  | some peer =>
      decidable_of_iff (peer.level = 1) (by
        constructor
        · exact fun h => ⟨peer, hfound, h⟩
        · rintro ⟨other, hother, h⟩
          rw [hfound] at hother
          rwa [Option.some.inj hother])

structure OwnEntry (entry : BanListPeer) : Prop where
  level : entry.level = 1
  reason : entry.reason = reasonDht

/-- A report of a friend that keeps apart. -/
structure FriendEntry (entry : BanListPeer) : Prop where
  level : 1 < entry.level + 1
  reason : entry.reason ≠ reasonUser

/-- An entry of `mBanSet`: the node's own, or a friend's. -/
def Told (entry : BanListPeer) : Prop :=
  OwnEntry entry ∨ (1 < entry.level ∧ entry.reason ≠ reasonUser)

def AllTold (banSet : OrderedMap Ipv4 BanListPeer) : Prop :=
  ∀ (addr : Ipv4) (entry : BanListPeer), banSet[addr]? = some entry → Told entry

theorem or_ne_user {x y : BitVec 32} (hx : x ≠ reasonUser) (hy : y ≠ reasonUser) :
    x ||| y ≠ reasonUser := by
  intro hor
  have hbits : ∀ i, (x.getLsbD i || y.getLsbD i) = reasonUser.getLsbD i := by
    intro i
    rw [← hor, BitVec.getLsbD_or]
  have hhigh : ∀ i, i ≠ 0 → reasonUser.getLsbD i = false := by
    intro i hi
    simp [reasonUser, hi]
  cases hlow : x.getLsbD 0 with
  | true =>
      apply hx
      apply BitVec.eq_of_getLsbD_eq
      intro i _
      by_cases hi : i = 0
      · rw [hi, hlow]
        rfl
      · have := hbits i
        rw [hhigh i hi, Bool.or_eq_false_iff] at this
        rw [this.1, hhigh i hi]
  | false =>
      apply hy
      apply BitVec.eq_of_getLsbD_eq
      intro i _
      have := hbits i
      by_cases hi : i = 0
      · rw [hi] at this ⊢
        rwa [hlow, Bool.false_or] at this
      · rw [hhigh i hi, Bool.or_eq_false_iff] at this
        rw [this.2, hhigh i hi]

/-- Where `merged` goes into the set, it is the node's own entry just when it says so. -/
theorem ownIn_insert {banSet : OrderedMap Ipv4 BanListPeer} {addr x : Ipv4} {entry : BanListPeer} :
    OwnIn (banSet.insert addr entry) x ↔ if addr = x then entry.level = 1 else OwnIn banSet x := by
  unfold OwnIn
  rw [OrderedMap.lookup_insert]
  split <;> simp

theorem AllTold.insert {banSet : OrderedMap Ipv4 BanListPeer} (htold : AllTold banSet) (addr : Ipv4)
    {entry : BanListPeer} (hentry : Told entry) : AllTold (banSet.insert addr entry) := by
  intro x known hknown
  rw [OrderedMap.lookup_insert] at hknown
  split at hknown
  · rwa [← Option.some.inj hknown]
  · exact htold x known hknown

section Condense

variable {service : Service} {banSet : OrderedMap Ipv4 BanListPeer} {now : Int}

/-- The entry counts at that time. -/
def Service.Counts (service : Service) (now : Int) (entry : BanListPeer) : Prop :=
  ¬ entryMaxAge + entry.mTs < now ∧ service.isWhiteListed entry.addr = false

theorem condenseEntry_friend (htold : AllTold banSet) {peerId : RsPeerId}
    (hpeer : peerId ≠ service.ownId) {entry : BanListPeer} (hentry : FriendEntry entry) :
    AllTold (service.condenseEntry now peerId banSet entry) ∧
      ∀ x, OwnIn (service.condenseEntry now peerId banSet entry) x ↔ OwnIn banSet x := by
  have hlevel : entry.level + 1 ≠ 1 := by
    intro heq
    have := hentry.level
    rw [heq] at this
    exact absurd this (by decide)
  unfold Service.condenseEntry
  simp only [hpeer, ne_eq, not_false_eq_true, if_true]
  split
  · exact ⟨htold, fun _ => Iff.rfl⟩
  · split
    · exact ⟨htold, fun _ => Iff.rfl⟩
    · split
      · next hnone =>
          refine ⟨htold.insert _ (.inr ⟨hentry.level, hentry.reason⟩), fun x => ?_⟩
          rw [ownIn_insert]
          split
          · next heq =>
              refine iff_of_false hlevel ?_
              rintro ⟨known, hknown, _⟩
              rw [← heq, hnone] at hknown
              cases hknown
          · exact Iff.rfl
      · next known hknown =>
          split
          · next hlower =>
              refine ⟨htold.insert _ (.inr ⟨hentry.level, hentry.reason⟩), fun x => ?_⟩
              rw [ownIn_insert]
              split
              · next heq =>
                  refine iff_of_false hlevel ?_
                  rintro ⟨other, hother, hone⟩
                  rw [← heq, hknown] at hother
                  rw [Option.some.inj hother, hone] at hlower
                  exact absurd (BitVec.lt_trans hentry.level hlower) (by decide)
              · exact Iff.rfl
          · split
            · next hsame =>
                have hfriend : 1 < known.level ∧ known.reason ≠ reasonUser := by
                  refine (htold _ _ hknown).resolve_left fun hown => hlevel ?_
                  rw [hsame, hown.level]
                refine ⟨htold.insert _ (.inr ⟨hfriend.1, or_ne_user hfriend.2 hentry.reason⟩),
                  fun x => ?_⟩
                rw [ownIn_insert]
                split
                · next heq =>
                    refine iff_of_false (hsame ▸ hlevel) ?_
                    rintro ⟨other, hother, hone⟩
                    rw [← heq, hknown] at hother
                    rw [← Option.some.inj hother] at hone
                    exact hlevel (hsame.trans hone)
                · exact Iff.rfl
            · exact ⟨htold, fun _ => Iff.rfl⟩

variable (service now) in
theorem condenseEntry_own (htold : AllTold banSet) {entry : BanListPeer} (hentry : OwnEntry entry) :
    AllTold (service.condenseEntry now service.ownId banSet entry) ∧
      ∀ x, OwnIn (service.condenseEntry now service.ownId banSet entry) x ↔
        OwnIn banSet x ∨ (entry.addr = x ∧ service.Counts now entry) := by
  have hdouble : reasonDht ||| reasonDht = reasonDht := by decide
  have hnew : Told { entry with level := entry.level } := .inl hentry
  unfold Service.condenseEntry Service.Counts
  simp only [ne_eq, not_true_eq_false, if_false]
  split
  · next hold => exact ⟨htold, fun x => by simp [hold]⟩
  · next hfresh =>
      split
      · next hwhite => exact ⟨htold, fun x => by simp [hwhite]⟩
      · next hwhite =>
          have hcounts : ∀ x : Ipv4, (entry.addr = x ∧ ¬ entryMaxAge + entry.mTs < now ∧
              service.isWhiteListed entry.addr = false) ↔ entry.addr = x := by
            intro x
            simp [hfresh, hwhite]
          simp only [hcounts]
          have hinsert : ∀ (merged : BanListPeer), merged.level = 1 → ∀ x,
              OwnIn (banSet.insert entry.addr merged) x ↔ OwnIn banSet x ∨ entry.addr = x := by
            intro merged hone x
            rw [ownIn_insert]
            split
            · next heq => exact iff_of_true hone (.inr heq)
            · next hne => simp [hne]
          split
          · exact ⟨htold.insert _ hnew, hinsert _ hentry.level⟩
          · next known hknown =>
              split
              · exact ⟨htold.insert _ hnew, hinsert _ hentry.level⟩
              · next hlower =>
                  have hone : known.level = 1 := by
                    obtain hown | hfriend := htold _ _ hknown
                    · exact hown.level
                    · exact absurd (hentry.level ▸ hfriend.1) hlower
                  have hreason : known.reason = reasonDht := by
                    obtain hown | hfriend := htold _ _ hknown
                    · exact hown.reason
                    · exact absurd (hentry.level ▸ hfriend.1) hlower
                  split
                  · refine ⟨htold.insert _ (.inl ⟨hone, ?_⟩), hinsert _ hone⟩
                    change known.reason ||| entry.reason = reasonDht
                    rw [hreason, hentry.reason, hdouble]
                  · next hne => exact absurd (hentry.level.trans hone.symm) hne

/-- What the service keeps: the node's own reports are those it makes, friends' reports keep apart,
and so do the banned addresses. -/
structure Service.Sound (service : Service) : Prop where
  friendsOff : service.mIPFriendGatheringEnabled = false
  own : ∀ source : Source, service.mBanSources[service.ownId]? = some source →
    ∀ (addr : Ipv4) (entry : BanListPeer), source.mBanPeers[addr]? = some entry →
      entry.addr = addr ∧ OwnEntry entry
  friends : ∀ (peerId : RsPeerId) (source : Source), peerId ≠ service.ownId →
    service.mBanSources[peerId]? = some source →
      ∀ (addr : Ipv4) (entry : BanListPeer), source.mBanPeers[addr]? = some entry →
        FriendEntry entry
  told : AllTold service.mBanSet

/-- The node's own report of the address counts at that time. -/
def Service.OwnReport (service : Service) (now : Int) (addr : Ipv4) : Prop :=
  ∃ source : Source, service.mBanSources[service.ownId]? = some source ∧
    ¬ entryMaxAge < now - source.mLastUpdate ∧
      ∃ entry, source.mBanPeers[addr]? = some entry ∧ service.Counts now entry

variable (now) in
theorem condenseSource_friend (htold : AllTold banSet) {peerId : RsPeerId} {source : Source}
    (hpeer : peerId ≠ service.ownId)
    (hsource : ∀ (addr : Ipv4) (entry : BanListPeer), source.mBanPeers[addr]? = some entry →
      FriendEntry entry) :
    AllTold (service.condenseSource now banSet (peerId, source)) ∧
      ∀ x, OwnIn (service.condenseSource now banSet (peerId, source)) x ↔ OwnIn banSet x := by
  unfold Service.condenseSource
  split
  · exact ⟨htold, fun _ => Iff.rfl⟩
  · have hentries : ∀ entry ∈ source.mBanPeers.toList, FriendEntry entry.2 :=
      fun entry hentry => hsource entry.1 entry.2 ((OrderedMap.mem_toList _).mp hentry)
    dsimp only
    generalize source.mBanPeers.toList = entries at hentries ⊢
    induction entries using List.reverseRecOn with
    | nil => exact ⟨htold, fun _ => Iff.rfl⟩
    | append_singleton entries entry ih =>
        rw [List.foldl_append, List.foldl_cons, List.foldl_nil]
        obtain ⟨htold', hown⟩ := ih fun entry hentry =>
          hentries entry (List.mem_append_left _ hentry)
        obtain ⟨htold'', hown'⟩ := condenseEntry_friend htold' hpeer
          (hentries entry (List.mem_append_right _ (List.mem_singleton_self _)))
        exact ⟨htold'', fun x => (hown' x).trans (hown x)⟩

variable (service now) in
theorem condenseSource_own (htold : AllTold banSet) {source : Source}
    (hsource : ∀ (addr : Ipv4) (entry : BanListPeer), source.mBanPeers[addr]? = some entry →
      entry.addr = addr ∧ OwnEntry entry) :
    AllTold (service.condenseSource now banSet (service.ownId, source)) ∧
      ∀ x, OwnIn (service.condenseSource now banSet (service.ownId, source)) x ↔
        OwnIn banSet x ∨ (¬ entryMaxAge < now - source.mLastUpdate ∧
          ∃ entry, source.mBanPeers[x]? = some entry ∧ service.Counts now entry) := by
  unfold Service.condenseSource
  split
  · next hold => exact ⟨htold, fun x => by simp [hold]⟩
  · next hfresh =>
      have hentries : ∀ entry ∈ source.mBanPeers.toList, OwnEntry entry.2 :=
        fun entry hentry => (hsource entry.1 entry.2 ((OrderedMap.mem_toList _).mp hentry)).2
      have hlisted : ∀ x, (∃ entry, source.mBanPeers[x]? = some entry ∧ service.Counts now entry) ↔
          ∃ entry ∈ source.mBanPeers.toList, entry.2.addr = x ∧ service.Counts now entry.2 := by
        intro x
        constructor
        · rintro ⟨entry, hentry, hcounts⟩
          exact ⟨(x, entry), (OrderedMap.mem_toList _).mpr hentry, (hsource x entry hentry).1,
            hcounts⟩
        · rintro ⟨⟨addr, entry⟩, hentry, haddr, hcounts⟩
          rw [OrderedMap.mem_toList] at hentry
          rw [(hsource addr entry hentry).1] at haddr
          exact ⟨entry, haddr ▸ hentry, hcounts⟩
      simp only [hfresh, not_false_eq_true, true_and, hlisted]
      generalize source.mBanPeers.toList = entries at hentries ⊢
      induction entries using List.reverseRecOn with
      | nil => exact ⟨htold, fun x => by simp⟩
      | append_singleton entries entry ih =>
          rw [List.foldl_append, List.foldl_cons, List.foldl_nil]
          obtain ⟨htold', hown⟩ := ih fun entry hentry =>
            hentries entry (List.mem_append_left _ hentry)
          obtain ⟨htold'', hown'⟩ := condenseEntry_own service now htold'
            (hentries entry (List.mem_append_right _ (List.mem_singleton_self _)))
          refine ⟨htold'', fun x => ?_⟩
          rw [hown', hown]
          simp [or_and_right, exists_or, or_assoc]

/-- The node's own part of the new set depends on its own reports alone. -/
theorem Service.Sound.condense (hsound : service.Sound) (now : Int) :
    AllTold (service.condenseBanSources now).mBanSet ∧
      ∀ x, OwnIn (service.condenseBanSources now).mBanSet x ↔ service.OwnReport now x := by
  have hfold : ∀ sources : List (RsPeerId × Source),
      (∀ entry ∈ sources, service.mBanSources[entry.1]? = some entry.2) →
        AllTold (sources.foldl (service.condenseSource now) ∅) ∧
          ∀ x, OwnIn (sources.foldl (service.condenseSource now) ∅) x ↔
            ∃ source, (service.ownId, source) ∈ sources ∧
              ¬ entryMaxAge < now - source.mLastUpdate ∧
                ∃ entry, source.mBanPeers[x]? = some entry ∧ service.Counts now entry := by
    intro sources hsources
    induction sources using List.reverseRecOn with
    | nil => exact ⟨fun _ _ h => by simp at h, fun x => by simp [OwnIn]⟩
    | append_singleton sources entry ih =>
        obtain ⟨peerId, source⟩ := entry
        rw [List.foldl_append, List.foldl_cons, List.foldl_nil]
        obtain ⟨htold, hown⟩ := ih fun entry hentry =>
          hsources entry (List.mem_append_left _ hentry)
        have hlookup := hsources (peerId, source)
          (List.mem_append_right _ (List.mem_singleton_self _))
        by_cases hpeer : peerId = service.ownId
        · subst hpeer
          obtain ⟨htold', hown'⟩ := condenseSource_own service now htold
            (hsound.own source hlookup)
          refine ⟨htold', fun x => ?_⟩
          rw [hown', hown]
          simp [or_and_right, exists_or]
        · obtain ⟨htold', hown'⟩ := condenseSource_friend now htold hpeer
            (hsound.friends peerId source hpeer hlookup)
          refine ⟨htold', fun x => ?_⟩
          rw [hown', hown]
          simp [Ne.symm hpeer]
  obtain ⟨htold, hown⟩ := hfold service.mBanSources.toList
    fun entry hentry => (OrderedMap.mem_toList _).mp hentry
  refine ⟨htold, fun x => ?_⟩
  rw [Service.condenseBanSources, hown, Service.OwnReport]
  simp only [OrderedMap.mem_toList]

end Condense

end RetroShare.BanList
