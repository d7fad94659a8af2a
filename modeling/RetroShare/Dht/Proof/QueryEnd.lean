import RetroShare.Dht.Proof.Query

/-!
# The end of a query

Two places of the code take an end of a list without asking whether the list is empty: the trimming
of the potential peers looks at the last one of the closest peers, and the end of a query at the
first one of the potential peers.
-/

namespace RetroShare.Dht.Query

open RetroShare.Transition

variable {q q' : Query} {id : PeerAddr} {mode : BitVec 32} {now : Int}

/-! ### What is left alone -/

/-- The two queries differ in their proxies at most. -/
def SameButProxies (q q' : Query) : Prop :=
  ∃ unknown flagged, q' = { q with mProxiesUnknown := unknown, mProxiesFlagged := flagged }

theorem SameButProxies.trans {q'' : Query} (h : SameButProxies q q') (h' : SameButProxies q' q'') :
    SameButProxies q q'' := by
  obtain ⟨_, _, rfl⟩ := h
  obtain ⟨unknown, flagged, rfl⟩ := h'
  exact ⟨unknown, flagged, rfl⟩

theorem sameButProxies_pushProxy (q : Query) (peer : Peer) : SameButProxies q (q.pushProxy peer) := by
  unfold pushProxy
  split
  · exact ⟨_, _, rfl⟩
  · exact ⟨_, _, rfl⟩

theorem sameButProxies_updateProxyLists (hupdate : q.updateProxyLists id mode now = some q') :
    SameButProxies q q' := by
  unfold updateProxyLists at hupdate
  split at hupdate
  · cases hupdate
    exact SameButProxies.trans ⟨_, _, rfl⟩ (sameButProxies_pushProxy _ _)
  · obtain ⟨⟨peer, proxies⟩, -, hupdate⟩ := Option.bind_eq_some_iff.mp hupdate
    cases hupdate
    exact SameButProxies.trans ⟨_, _, rfl⟩ (sameButProxies_pushProxy _ _)

theorem sameButProxies_getD {added : Option Query} {other : Query}
    (hadded : ∀ r, added = some r → SameButProxies q r) (hother : SameButProxies q other) :
    SameButProxies q (added.getD other).trimProxies := by
  cases added with
  | none => exact hother.trans ⟨_, _, rfl⟩
  | some r => exact (hadded r rfl).trans ⟨_, _, rfl⟩

theorem sameButProxies_addProxy (q : Query) (id : PeerAddr) (src : Option PeerAddr)
    (srcmode : BitVec 32) (now : Int) : SameButProxies q (q.addProxy id src srcmode now) := by
  unfold addProxy
  split
  · exact ⟨_, _, rfl⟩
  · split
    · exact ⟨_, _, rfl⟩
    · exact sameButProxies_getD (fun _ hr => sameButProxies_updateProxyLists hr)
        (sameButProxies_pushProxy _ _)

theorem sameButProxies_updateProxy (q : Query) (id : PeerAddr) (mode : BitVec 32) (now : Int) :
    SameButProxies q (q.updateProxy id mode now) :=
  sameButProxies_getD (fun _ hr => sameButProxies_updateProxyLists hr) ⟨_, _, rfl⟩

theorem addClosestPeer_frame (q : Query) (id : PeerAddr) (mode : BitVec 32) (now : Int) :
    ∃ closest, (q.addClosestPeer id mode now).2 = { q with mClosest := closest } := by
  generalize hadd : q.addClosestPeer id mode now = r
  obtain ⟨accepted, u⟩ := r
  rcases addClosestPeer_cases hadd with
    ⟨-, -, hsame⟩ | ⟨-, -, ⟨-, hsame⟩ | ⟨-, closest, -, hsame, -⟩⟩
  · exact ⟨q.mClosest, hsame⟩
  · exact ⟨_, hsame⟩
  · exact ⟨closest, hsame⟩

theorem trimPotentialPeersToClosest_frame (htrim : q.trimPotentialPeersToClosest = some q') :
    ∃ potential, q' = { q with mPotentialPeers := potential } := by
  unfold trimPotentialPeersToClosest at htrim
  split at htrim
  · cases htrim
    exact ⟨_, rfl⟩
  · obtain ⟨last, -, htrim⟩ := Option.bind_eq_some_iff.mp htrim
    cases htrim
    exact ⟨_, rfl⟩

theorem updatePotentialPeer_frame {addType : AddType} {ping : Bool}
    (hupdate : q.updatePotentialPeer id mode addType now = some (ping, q')) :
    ∃ potential, q' = { q with mPotentialPeers := potential } := by
  unfold updatePotentialPeer at hupdate
  dsimp only at hupdate
  split at hupdate
  · cases hupdate
    exact ⟨_, rfl⟩
  · obtain ⟨r, htrim, hupdate⟩ := Option.bind_eq_some_iff.mp hupdate
    cases hupdate
    obtain ⟨potential, hframe⟩ := trimPotentialPeersToClosest_frame htrim
    exact ⟨potential, hframe⟩

theorem updateRetryPeriod_frame (q : Query) (now : Int) :
    ∃ period, q.updateRetryPeriod now = { q with mQueryIdlePeerRetryPeriod := period } := by
  unfold updateRetryPeriod
  split
  · exact ⟨_, rfl⟩
  · exact ⟨_, rfl⟩

/-! ### The last one of the closest peers -/

/-- The peer is one of the potential peers. -/
def Known (q : Query) (id : PeerAddr) : Prop :=
  (q.mPotentialPeers.entries.find? (isEntryOf (distance q.mId id.id) id)).isSome = true

theorem trimPotentialPeersToClosest_isSome_iff :
    q.trimPotentialPeersToClosest.isSome = true ↔
      q.mPotentialPeers.entries.length ≤ q.bdNumQueryNodes ∨ q.mClosest.entries ≠ [] := by
  unfold trimPotentialPeersToClosest
  split
  · next hfew => exact iff_of_true rfl (.inl hfew)
  · next hmany =>
    rw [or_iff_right hmany]
    cases hlast : q.mClosest.entries.getLast? with
    | none => exact iff_of_false Bool.false_ne_true fun hne => hne (List.getLast?_eq_none_iff.mp hlast)
    | some last =>
        refine iff_of_true rfl fun hnil => ?_
        rw [hnil] at hlast
        cases hlast

theorem trimPotentialPeersToClosest_insert (dist : Metric) (peer : Peer) :
    (trimPotentialPeersToClosest
        { q with mPotentialPeers := q.mPotentialPeers.insert dist peer }).isSome = true ↔
      q.mPotentialPeers.entries.length < q.bdNumQueryNodes ∨ q.mClosest.entries ≠ [] := by
  have hlength := (Multimap.insert_perm q.mPotentialPeers dist peer).length_eq
  rw [List.length_cons] at hlength
  rw [trimPotentialPeersToClosest_isSome_iff, hlength]
  rfl

theorem updatePotentialPeer_isSome_iff {addType : AddType} :
    (q.updatePotentialPeer id mode addType now).isSome = true ↔
      q.Known id ∨ q.mPotentialPeers.entries.length < q.bdNumQueryNodes ∨
        q.mClosest.entries ≠ [] := by
  unfold updatePotentialPeer Known
  dsimp only
  split
  · next hfound =>
    rw [hfound]
    exact iff_of_true rfl (.inl rfl)
  · next hnew =>
    rw [hnew, Option.isSome_none, or_iff_right Bool.false_ne_true]
    rw [bind_pure_comp, Option.map_eq_map, Option.isSome_map]
    exact trimPotentialPeersToClosest_insert _ _

/-- After a peer has answered, the list is empty only if it has no room for a single peer. -/
theorem closest_addClosestPeer_ne_nil :
    (q.addClosestPeer id mode now).2.mClosest.entries ≠ [] ↔
      q.mClosest.entries ≠ [] ∨ 0 < q.mClosestListSize := by
  generalize hadd : q.addClosestPeer id mode now = r
  obtain ⟨accepted, u⟩ := r
  rcases addClosestPeer_cases hadd with
    ⟨hfull, -, rfl⟩ | ⟨hroom, -, ⟨hknown, rfl⟩ | ⟨-, closest, peer, rfl, -, hentries⟩⟩
  · refine ⟨.inl, fun hor => hor.elim (fun hne => hne) fun hpos => ?_⟩
    obtain ⟨e, he⟩ := List.exists_mem_of_length_pos (hpos.trans_le hfull)
    exact List.ne_nil_of_mem (mem_answering.mp he).1
  · have hpos : 0 < q.mClosestListSize := by omega
    refine iff_of_true (fun hnil => ?_) (.inr hpos)
    have hkeys := Multimap.map_modifyFirst (p := isEntryOf (distance q.mId id.id) id)
      (f := fun e : Metric × Peer => (e.1, updateClosest id mode now e.2)) Prod.fst (fun _ => rfl)
      q.mClosest.entries
    rw [show Multimap.modifyFirst _ _ _ = [] from hnil] at hkeys
    obtain ⟨e, he, -⟩ := List.any_eq_true.mp hknown
    exact List.ne_nil_of_mem he (List.map_eq_nil_iff.mp hkeys.symm)
  · have hpos : 0 < q.mClosestListSize := by omega
    refine iff_of_true ?_ (.inr hpos)
    rw [hentries]
    exact List.append_ne_nil_of_right_ne_nil _ (List.cons_ne_nil _ _)

/-! ### The first one of the potential peers -/

/-- The closest peer is the one that was searched, and has answered. -/
def Found (q : Query) (first : Metric × Peer) : Prop :=
  first.2.mPeerId.id = q.mId ∧ first.2.mLastRecvTime ≠ 0

/-- The potential peers that are left when the old ones are gone. -/
def recent (q : Query) (now : Int) : List (Metric × Peer) :=
  (q.removeOldPotentialPeers now).mPotentialPeers.entries

theorem recent_mSearchTime (q : Query) (now searchTime : Int) :
    recent { q with mSearchTime := searchTime } now = q.recent now := by
  unfold recent removeOldPotentialPeers
  dsimp only
  split_ifs <;> rfl

theorem removeOldPotentialPeers_frame (q : Query) (now : Int) :
    ∃ potential ts, q.removeOldPotentialPeers now =
      { q with mPotentialPeers := potential, mPotPeerCleanTS := ts } := by
  unfold removeOldPotentialPeers
  split_ifs
  · exact ⟨_, _, rfl⟩
  · exact ⟨_, _, rfl⟩
  · exact ⟨_, _, rfl⟩

/-- The state in which `finish` looks at the peers. -/
theorem cleaned_frame (q : Query) (now : Int) :
    ∃ searchTime potential ts,
      (if q.mState = .querying then
        { q with mSearchTime := (now - q.mQueryTS).bmod (2 ^ 32) } else q).removeOldPotentialPeers now =
        { q with mSearchTime := searchTime, mPotentialPeers := potential, mPotPeerCleanTS := ts } ∧
      potential.entries = q.recent now := by
  split
  · obtain ⟨potential, ts, hframe⟩ := removeOldPotentialPeers_frame
      { q with mSearchTime := (now - q.mQueryTS).bmod (2 ^ 32) } now
    refine ⟨_, potential, ts, hframe, ?_⟩
    rw [← recent_mSearchTime q now ((now - q.mQueryTS).bmod (2 ^ 32)), recent, hframe]
  · obtain ⟨potential, ts, hframe⟩ := removeOldPotentialPeers_frame q now
    refine ⟨_, potential, ts, hframe, ?_⟩
    rw [recent, hframe]

/-- **What `finish` can do.** -/
theorem finish_cases (q : Query) (now : Int) :
    (q.mClosest.entries = [] ∧ ∃ q', q.finish now = some q' ∧ q'.mState = .failure) ∨
    ∃ first, q.mClosest.entries.head? = some first ∧
      (q.Found first ∧ (∃ q', q.finish now = some q' ∧ q'.mState = .success) ∨
      ¬ q.Found first ∧ (q.recent now = [] ∧ q.finish now = none ∨
        ∃ potential q', (q.recent now).head? = some potential ∧ q.finish now = some q' ∧
          q'.mPotentialPeers.entries = q.recent now ∧
          q'.mState = if potential.2.mPeerId.id = q.mId then .peerUnreachable else .foundClosest)) := by
  obtain ⟨searchTime, potential, ts, hframe, hrecent⟩ := cleaned_frame q now
  unfold finish
  dsimp only
  rw [hframe]
  dsimp only
  rw [← hrecent]
  cases hclosest : q.mClosest.entries with
  | nil => exact .inl ⟨rfl, _, rfl, rfl⟩
  | cons first rest =>
      refine .inr ⟨first, rfl, ?_⟩
      dsimp only
      split_ifs with hfound
      · exact .inl ⟨hfound, _, rfl, rfl⟩
      · refine .inr ⟨hfound, ?_⟩
        cases hpotential : potential.entries with
        | nil => exact .inl ⟨rfl, rfl⟩
        | cons peer others => exact .inr ⟨peer, _, rfl, rfl, hpotential, rfl⟩

/-- The peer is to be asked, for the first time or again. -/
def due (q : Query) (now : Int) (e : Metric × Peer) : Bool :=
  e.2.mLastSendTime = 0 ∨ (q.mQueryFlags &&& qflagsDoIdle ≠ 0 ∧
    now - e.2.mLastSendTime > q.mQueryIdlePeerRetryPeriod)

/-- One of the closest peers has not answered, or just now. -/
def awaits (q : Query) (now : Int) : Bool :=
  (q.mClosest.entries.take q.bdNumQueryNodes).any fun e =>
    e.2.mLastRecvTime = 0 ∨ now - e.2.mLastRecvTime < expectedReply

/-- `nextQuery` finds nobody to ask and does not wait any longer. -/
def Ends (q : Query) (now : Int) : Prop :=
  ¬ (q.mState ≠ .querying ∧ q.mQueryFlags &&& qflagsDoIdle = 0) ∧
    q.mClosest.entries.find? ((q.updateRetryPeriod now).due now) = none ∧
    ¬ now - q.mQueryTS < minQueryAge ∧
    ¬ (¬ now - q.mQueryTS > maxQueryAge ∧
      (q.mClosest.entries.length < q.bdNumQueryNodes ∨ q.awaits now))

theorem nextQuery_of_ends (hends : q.Ends now) (random : NodeId) :
    q.nextQuery random now = ((q.updateRetryPeriod now).finish now).map fun q => (none, q) := by
  obtain ⟨hsearches, hnobody, hold, hdone⟩ := hends
  obtain ⟨period, hframe⟩ := updateRetryPeriod_frame q now
  unfold nextQuery
  rw [if_neg hsearches]
  rw [hframe] at hnobody ⊢
  unfold due at hnobody
  unfold awaits at hdone
  dsimp only at hnobody ⊢
  rw [hnobody]
  dsimp only
  rw [if_neg hold, if_neg hdone]
  exact bind_pure_comp _ _

theorem nextQuery_of_not_ends (hends : ¬ q.Ends now) (random : NodeId) :
    ∃ asked q', q.nextQuery random now = some (asked, q') ∧ q'.mState = q.mState ∧
      q'.mClosestListSize = q.mClosestListSize ∧ q'.bdNumQueryNodes = q.bdNumQueryNodes := by
  obtain ⟨period, hframe⟩ := updateRetryPeriod_frame q now
  unfold nextQuery
  split
  · exact ⟨_, _, rfl, rfl, rfl, rfl⟩
  · next hsearches =>
    rw [Ends, and_iff_right hsearches] at hends
    rw [hframe] at hends ⊢
    dsimp only
    split
    · exact ⟨_, _, rfl, rfl, rfl, rfl⟩
    · next hnobody =>
      split
      · exact ⟨_, _, rfl, rfl, rfl, rfl⟩
      · next hold =>
        split
        · exact ⟨_, _, rfl, rfl, rfl, rfl⟩
        · next hdone => exact absurd ⟨hnobody, hold, hdone⟩ hends

/-! ### Steps -/

/-- The lists of which a step takes an end are not empty. -/
def Safe (q : Query) : Int × Op → Prop
  | (_, .addPeer id _) =>
      q.mClosest.entries ≠ [] ∨ 0 < q.bdNumQueryNodes ∨ q.Known id
  | (_, .addPotentialPeer id _ _) =>
      q.mClosest.entries ≠ [] ∨ q.bdNumQueryNodes = 0 ∨ q.Known id ∨
        q.mPotentialPeers.entries.length < q.bdNumQueryNodes
  | (now, .nextQuery _) =>
      q.Ends now → ∀ first, q.mClosest.entries.head? = some first →
        q.Found first ∨ (q.updateRetryPeriod now).recent now ≠ []

/-- The query takes the step, and has ended as unreachable only if it did so before this step or the
peer it looks for is one of the potential peers. -/
def StepsSafely (q : Query) (event : Int × Op) : Prop :=
  ∃ q', q.step event = some q' ∧
    (q'.mState = .peerUnreachable →
      (q.mState = .peerUnreachable ∧ ∀ random, event.2 = .nextQuery random → ¬ q.Ends event.1) ∨
        ∃ e ∈ q'.mPotentialPeers.entries, e.2.mPeerId.id = q.mId)

/-- The number of closest peers that are kept. -/
def Sized (q : Query) : Prop := q.mClosestListSize = 3 * q.bdNumQueryNodes / 2

theorem addPeer_eq_map (q : Query) (id : PeerAddr) (mode : BitVec 32) (now : Int) :
    q.addPeer id mode now =
      ((q.addClosestPeer id mode now).2.updatePotentialPeer id mode .peerMessage now).map
        fun r => r.2.updateProxy id mode now := by
  unfold addPeer
  generalize q.addClosestPeer id mode now = r
  obtain ⟨accepted, u⟩ := r
  dsimp only
  cases u.updatePotentialPeer id mode .peerMessage now with
  | none => rfl
  | some r => rfl

theorem addPeer_stepsSafely_iff (hsized : q.Sized) :
    q.StepsSafely (now, .addPeer id mode) ↔ q.Safe (now, .addPeer id mode) := by
  obtain ⟨closest, hframe⟩ := addClosestPeer_frame q id mode now
  have hclosest := @closest_addClosestPeer_ne_nil q id mode now
  have hadd := addPeer_eq_map q id mode now
  rw [hframe] at hclosest hadd
  constructor
  · rintro ⟨q', hstep, -⟩
    obtain ⟨⟨ping, u⟩, hupdate, -⟩ := Option.map_eq_some_iff.mp (hadd.symm.trans hstep)
    rcases updatePotentialPeer_isSome_iff.mp (Option.isSome_of_mem hupdate) with
      hknown | hfew | hne
    · exact .inr (.inr hknown)
    · exact .inr (.inl (Nat.zero_lt_of_lt hfew))
    · refine (hclosest.mp hne).imp_right fun hpos => .inl ?_
      rw [Sized] at hsized
      omega
  · intro hsafe
    have hdefined : (({ q with mClosest := closest } : Query).updatePotentialPeer id mode
        .peerMessage now).isSome = true := by
      rw [updatePotentialPeer_isSome_iff]
      rcases hsafe with hne | hpos | hknown
      · exact .inr (.inr (hclosest.mpr (.inl hne)))
      · refine .inr (.inr (hclosest.mpr (.inr ?_)))
        rw [Sized] at hsized
        omega
      · exact .inl hknown
    obtain ⟨⟨ping, u⟩, hupdate⟩ := Option.isSome_iff_exists.mp hdefined
    obtain ⟨potential, rfl⟩ := updatePotentialPeer_frame hupdate
    obtain ⟨unknown, flagged, hproxy⟩ := sameButProxies_updateProxy
      { q with mClosest := closest, mPotentialPeers := potential } id mode now
    rw [hupdate, Option.map_some, hproxy] at hadd
    exact ⟨_, hadd, fun hstate => .inl ⟨hstate, nofun⟩⟩

/-- With no closest peer, every peer is worth a ping unless none is wanted. -/
theorem worthyPotentialPeer_of_nil (hnil : q.mClosest.entries = []) :
    q.worthyPotentialPeer id = true ↔ 0 < q.bdNumQueryNodes := by
  unfold worthyPotentialPeer
  rw [hnil]
  simp [Nat.pos_iff_ne_zero]

theorem addPotentialPeer_isSome_iff {src : Option PeerAddr} {srcmode : BitVec 32} :
    (q.addPotentialPeer id src srcmode now).isSome = true ↔
      q.Safe (now, .addPotentialPeer id src srcmode) := by
  obtain ⟨unknown, flagged, hproxy⟩ := sameButProxies_addProxy q id src srcmode now
  unfold addPotentialPeer
  dsimp only
  rw [hproxy]
  by_cases hnil : q.mClosest.entries = []
  · have hworthy := @worthyPotentialPeer_of_nil
      { q with mProxiesUnknown := unknown, mProxiesFlagged := flagged } id hnil
    rcases Nat.eq_zero_or_pos q.bdNumQueryNodes with hzero | hpos
    · rw [if_neg fun hw => (hworthy.mp hw).ne' hzero]
      exact iff_of_true rfl (.inr (.inl hzero))
    · rw [if_pos (hworthy.mpr hpos), updatePotentialPeer_isSome_iff]
      refine Iff.trans ?_ (or_iff_right (not_not.mpr hnil)).symm
      rw [or_iff_right hpos.ne']
      exact or_congr_right (or_iff_left (not_not.mpr hnil))
  · refine iff_of_true ?_ (.inl hnil)
    split
    · exact updatePotentialPeer_isSome_iff.mpr (.inr (.inr hnil))
    · rfl

theorem addPotentialPeer_mState {src : Option PeerAddr} {srcmode : BitVec 32} {ping : Bool}
    (hadd : q.addPotentialPeer id src srcmode now = some (ping, q')) : q'.mState = q.mState := by
  obtain ⟨unknown, flagged, hproxy⟩ := sameButProxies_addProxy q id src srcmode now
  unfold addPotentialPeer at hadd
  dsimp only at hadd
  rw [hproxy] at hadd
  split at hadd
  · obtain ⟨potential, rfl⟩ := updatePotentialPeer_frame hadd
    rfl
  · cases hadd
    rfl

theorem addPotentialPeer_stepsSafely_iff {src : Option PeerAddr} {srcmode : BitVec 32} :
    q.StepsSafely (now, .addPotentialPeer id src srcmode) ↔
      q.Safe (now, .addPotentialPeer id src srcmode) := by
  rw [← addPotentialPeer_isSome_iff]
  constructor
  · rintro ⟨q', hstep, -⟩
    obtain ⟨r, hadd, -⟩ := Option.bind_eq_some_iff.mp hstep
    exact Option.isSome_of_mem hadd
  · intro hdefined
    obtain ⟨⟨ping, q'⟩, hadd⟩ := Option.isSome_iff_exists.mp hdefined
    refine ⟨q', ?_, fun hstate => .inl ⟨(addPotentialPeer_mState hadd).symm.trans hstate, nofun⟩⟩
    unfold step
    dsimp only
    rw [hadd]
    rfl

theorem nextQuery_stepsSafely_iff {random : NodeId} :
    q.StepsSafely (now, .nextQuery random) ↔ q.Safe (now, .nextQuery random) := by
  have hstep : q.step (now, .nextQuery random) = (q.nextQuery random now).map Prod.snd :=
    bind_pure_comp _ _
  unfold StepsSafely Safe
  rw [hstep]
  dsimp only
  by_cases hends : q.Ends now
  · rw [nextQuery_of_ends hends random, Option.map_map]
    obtain ⟨period, hframe⟩ := updateRetryPeriod_frame q now
    have hcases := finish_cases (q.updateRetryPeriod now) now
    generalize (q.updateRetryPeriod now).finish now = finished at hcases ⊢
    generalize (q.updateRetryPeriod now).recent now = recent at hcases ⊢
    rw [hframe] at hcases
    rcases hcases with ⟨hnil, q', rfl, hstate⟩ |
      ⟨first, hfirst, ⟨hfound, q', rfl, hstate⟩ | ⟨hfound, ⟨rfl, rfl⟩ |
        ⟨potential, q', hhead, rfl, hpotential, hstate⟩⟩⟩
    · refine iff_of_true ⟨q', rfl, fun h => ?_⟩ fun _ first hfirst => ?_
      · cases hstate.symm.trans h
      · rw [show q.mClosest.entries = [] from hnil] at hfirst
        cases hfirst
    · refine iff_of_true ⟨q', rfl, fun h => ?_⟩ fun _ other hother => .inl ?_
      · cases hstate.symm.trans h
      · cases hfirst.symm.trans hother
        exact hfound
    · refine iff_of_false ?_ fun hsafe => ?_
      · rintro ⟨q', hnone, -⟩
        cases hnone
      · rcases hsafe hends first hfirst with hfound' | hne
        · exact hfound hfound'
        · exact hne rfl
    · have hmem := List.mem_of_head? hhead
      refine iff_of_true ⟨q', rfl, fun h => .inr ⟨potential, hpotential ▸ hmem, ?_⟩⟩
        fun _ _ _ => .inr (List.ne_nil_of_mem hmem)
      by_contra hother
      rw [if_neg hother, h] at hstate
      cases hstate
  · obtain ⟨asked, q', hnext, hstate, -⟩ := nextQuery_of_not_ends hends random
    rw [hnext]
    refine iff_of_true ⟨q', rfl, fun hunreachable => .inl ⟨hstate.symm.trans hunreachable, ?_⟩⟩
      fun h => absurd h hends
    intro _ _
    exact hends

/-! ### Runs -/

theorem Sized.finish (hsized : q.Sized) (hfinish : q.finish now = some q') : q'.Sized := by
  obtain ⟨searchTime, potential, ts, hframe, -⟩ := cleaned_frame q now
  unfold Query.finish at hfinish
  dsimp only at hfinish
  rw [hframe] at hfinish
  split at hfinish
  · cases hfinish
    exact hsized
  · split at hfinish
    · cases hfinish
      exact hsized
    · obtain ⟨peer, -, hfinish⟩ := Option.bind_eq_some_iff.mp hfinish
      cases hfinish
      exact hsized

theorem Sized.nextQuery (hsized : q.Sized) {random : NodeId} {asked : Option (PeerAddr × NodeId)}
    (hnext : q.nextQuery random now = some (asked, q')) : q'.Sized := by
  have hperiod : (q.updateRetryPeriod now).Sized := by
    obtain ⟨period, hframe⟩ := updateRetryPeriod_frame q now
    rw [hframe]
    exact hsized
  by_cases hends : q.Ends now
  · rw [nextQuery_of_ends hends] at hnext
    obtain ⟨u, hfinish, hnext⟩ := Option.map_eq_some_iff.mp hnext
    cases hnext
    exact hperiod.finish hfinish
  · obtain ⟨_, _, hnext', -, hlist, hnodes⟩ := nextQuery_of_not_ends hends random
    cases hnext'.symm.trans hnext
    rw [Sized, hlist, hnodes]
    exact hsized

theorem Sized.step (hsized : q.Sized) {event : Int × Op} (hstep : q.step event = some q') :
    q'.Sized := by
  obtain ⟨now, op⟩ := event
  cases op with
  | addPeer id mode =>
      obtain ⟨closest, hframe⟩ := addClosestPeer_frame q id mode now
      obtain ⟨⟨ping, u⟩, hupdate, rfl⟩ :=
        Option.map_eq_some_iff.mp ((addPeer_eq_map q id mode now).symm.trans hstep)
      rw [hframe] at hupdate
      obtain ⟨potential, rfl⟩ := updatePotentialPeer_frame hupdate
      obtain ⟨unknown, flagged, hproxy⟩ := sameButProxies_updateProxy
        { q with mClosest := closest, mPotentialPeers := potential } id mode now
      dsimp only
      rw [hproxy]
      exact hsized
  | addPotentialPeer id src srcmode =>
      obtain ⟨⟨ping, u⟩, hadd, hstep⟩ := Option.bind_eq_some_iff.mp hstep
      cases hstep
      obtain ⟨unknown, flagged, hproxy⟩ := sameButProxies_addProxy q id src srcmode now
      unfold addPotentialPeer at hadd
      dsimp only at hadd
      rw [hproxy] at hadd
      split at hadd
      · obtain ⟨potential, rfl⟩ := updatePotentialPeer_frame hadd
        exact hsized
      · cases hadd
        exact hsized
  | nextQuery random =>
      obtain ⟨⟨asked, u⟩, hnext, hstep⟩ := Option.bind_eq_some_iff.mp hstep
      cases hstep
      exact hsized.nextQuery hnext

/-- **The end of a query.** In every state that a query reaches from its start list, a step neither
takes an end of an empty list nor ends the query as unreachable without the peer being a potential one,
if and only if the step is safe. -/
theorem stepsSafely_iff (id : NodeId) (startList : List PeerAddr) (queryFlags : BitVec 32)
    (numQueryNodes : Nat) (start : Int) (q : Query)
    (hreach : Reaches step (fun _ _ => True) (new id startList queryFlags numQueryNodes start) q)
    (event : Int × Op) : q.StepsSafely event ↔ q.Safe event := by
  have hsized : q.Sized := hreach.invariant Sized (fun _ _ _ hsized _ => hsized.step)
    (show Sized (new id startList queryFlags numQueryNodes start) from rfl)
  obtain ⟨now, op⟩ := event
  cases op with
  | addPeer id mode => exact addPeer_stepsSafely_iff hsized
  | addPotentialPeer id src srcmode => exact addPotentialPeer_stepsSafely_iff
  | nextQuery random => exact nextQuery_stepsSafely_iff

/-- One peer to start with, and no potential one. -/
def startedQuery : Query := new (sampleNode 0) [samplePeer 1] 0 10 0

theorem stepsSafely_startedQuery :
    startedQuery.StepsSafely (1, .nextQuery (sampleNode 7)) ↔
      startedQuery.Safe (1, .nextQuery (sampleNode 7)) :=
  stepsSafely_iff (sampleNode 0) [samplePeer 1] 0 10 0 _ (.refl _) _

/-- The peer is asked and never answers, and after 400 seconds the query ends. -/
theorem stepsSafely_counterexample :
    ¬ ∀ (id : NodeId) (startList : List PeerAddr) (queryFlags : BitVec 32) (numQueryNodes : Nat)
        (start : Int) (q : Query),
      Reaches step (fun _ _ => True) (new id startList queryFlags numQueryNodes start) q →
        ∀ event, q.StepsSafely event := by
  intro hclaim
  have hrun : ∃ q, startedQuery.step (1, .nextQuery (sampleNode 7)) = some q ∧
      q.step (400, .nextQuery (sampleNode 7)) = none := ⟨_, rfl, rfl⟩
  obtain ⟨q, hask, hend⟩ := hrun
  have hreach : Reaches step (fun _ _ => True) startedQuery q := (Reaches.refl _).tail trivial hask
  obtain ⟨q', hstep, -⟩ := hclaim _ _ _ _ _ q hreach (400, .nextQuery (sampleNode 7))
  cases hend.symm.trans hstep

end RetroShare.Dht.Query
