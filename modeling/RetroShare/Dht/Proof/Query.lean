import RetroShare.Dht.Query
import RetroShare.Foundation.Transition

/-!
# Query bookkeeping

The entries up to the distance of a new peer are a prefix of the closest peers, the overdue ones among
them go first, and what is cut off lies behind. A peer at the end of a full list counts itself when its
answer comes in, so that the answer is not noted.
-/

namespace RetroShare

namespace Dht.Query

open Transition

variable {q q' : Query} {id : PeerAddr} {mode : BitVec 32} {ts now : Int}

/-! ### The closest peers -/

/-- The closest peers are kept under their distance, each once, and not too many. -/
structure ClosestOk (q : Query) : Prop where
  keyed : ∀ e ∈ q.mClosest.entries, e.1 = distance q.mId e.2.mPeerId.id
  length_le : q.mClosest.entries.length ≤ q.mClosestListSize
  distinct : q.mClosest.entries.Pairwise fun a b => ¬ SimilarId a.2.mPeerId b.2.mPeerId

/-- The peers up to a distance that are not overdue. -/
def answering (q : Query) (dist : Metric) (ts : Int) : List (Metric × Peer) :=
  (q.mClosest.upTo dist).filter fun e => ¬ Overdue ts e.2

theorem entries_dropOverdue (ts : Int) (toDrop : Nat) (closest : Multimap Metric Peer)
    {lower upper : List (Metric × Peer)} (hentries : closest.entries = lower ++ upper)
    (hcount : (lower.filter fun e => Overdue ts e.2).length = toDrop) :
    (dropOverdue ts toDrop closest).entries = lower.filter (fun e => ¬ Overdue ts e.2) ++ upper := by
  induction toDrop generalizing closest lower with
  | zero =>
      have hnone : ∀ e ∈ lower, ¬ Overdue ts e.2 := by
        intro e he hoverdue
        rw [List.length_eq_zero_iff, List.filter_eq_nil_iff] at hcount
        exact hcount e he (decide_eq_true hoverdue)
      rw [List.filter_eq_self.mpr fun e he => decide_eq_true (hnone e he)]
      exact hentries
  | succ toDrop ih =>
      obtain ⟨e, he⟩ := List.exists_mem_of_length_pos ((Nat.succ_pos toDrop).trans_eq hcount.symm)
      have hmem := (List.mem_filter.mp he).1
      have hoverdue := (List.mem_filter.mp he).2
      obtain ⟨first, before, after, hbefore, hfirst, hsplit, herase⟩ :=
        List.exists_of_eraseP (p := fun e => Overdue ts e.2) hmem hoverdue
      have herased : (closest.eraseFirst fun e => Overdue ts e.2).entries =
          before ++ after ++ upper := by
        calc (closest.eraseFirst fun e => Overdue ts e.2).entries
            = (lower ++ upper).eraseP fun e => Overdue ts e.2 := congrArg _ hentries
          _ = lower.eraseP (fun e => Overdue ts e.2) ++ upper :=
              List.eraseP_append_left (p := fun e => Overdue ts e.2) hoverdue _ hmem
          _ = before ++ after ++ upper := by rw [herase]
      have hfewer : ((before ++ after).filter fun e => Overdue ts e.2).length = toDrop := by
        rw [hsplit, List.filter_append, List.filter_cons_of_pos (by exact hfirst), List.length_append,
          List.length_cons] at hcount
        rw [List.filter_append, List.length_append]
        omega
      have hothers : lower.filter (fun e => ¬ Overdue ts e.2) =
          (before ++ after).filter fun e => ¬ Overdue ts e.2 := by
        rw [hsplit, List.filter_append, List.filter_append, List.filter_cons_of_neg]
        simpa using hfirst
      rw [dropOverdue, hothers]
      exact ih _ herased hfewer

theorem mem_answering {dist : Metric} {e : Metric × Peer} :
    e ∈ q.answering dist ts ↔ e ∈ q.mClosest.entries ∧ e.1 ≤ dist ∧ ¬ Overdue ts e.2 := by
  unfold answering
  rw [List.mem_filter, Multimap.mem_upTo, decide_eq_true_iff, and_assoc]

/-- A peer is refused, known already, or put in place of overdue and farther ones. -/
theorem addClosestPeer_cases {accepted : Bool}
    (hadd : q.addClosestPeer id mode ts = (accepted, q')) :
    (q.mClosestListSize ≤ (q.answering (distance q.mId id.id) ts).length ∧
      accepted = false ∧ q' = q) ∨
    (q.answering (distance q.mId id.id) ts).length < q.mClosestListSize ∧ accepted = true ∧
      ((q.mClosest.entries.any (isEntryOf (distance q.mId id.id) id) ∧
        q' = { q with
          mClosest := q.mClosest.update (isEntryOf (distance q.mId id.id) id)
            (updateClosest id mode ts) }) ∨
      (¬ q.mClosest.entries.any (isEntryOf (distance q.mId id.id) id) ∧
        ∃ closest peer, q' = { q with mClosest := closest } ∧ peer.mPeerId = id ∧
          closest.entries = q.answering (distance q.mId id.id) ts ++
            (distance q.mId id.id, peer) :: (q.mClosest.above (distance q.mId id.id)).take
              (q.mClosestListSize - 1 - (q.answering (distance q.mId id.id) ts).length))) := by
  unfold addClosestPeer at hadd
  dsimp only at hadd
  split at hadd
  · next hfull =>
    cases hadd
    refine .inl ⟨?_, rfl, rfl⟩
    have hle : (q.mClosestListSize : Int) ≤ (q.answering (distance q.mId id.id) ts).length :=
      Int.le_of_sub_one_lt hfull
    exact Int.ofNat_le.mp hle
  · next hroom =>
    have hlt : (q.answering (distance q.mId id.id) ts).length < q.mClosestListSize := by
      have hle : ((q.answering (distance q.mId id.id) ts).length : Int) ≤
        (q.mClosestListSize : Int) - 1 := Int.not_lt.mp hroom
      omega
    split at hadd
    · next hknown =>
      cases hadd
      exact .inr ⟨hlt, rfl, .inl ⟨hknown, rfl⟩⟩
    · next hnew =>
      cases hadd
      let peer : Peer := {
        mPeerId := id
        mPeerFlags := mode
        mLastSendTime := 0
        mLastRecvTime := if mode &&& statusRecvNodes ≠ 0 then ts else 0
        mFoundTime := ts
        mExtraFlags := 0 }
      refine .inr ⟨hlt, rfl, .inr ⟨hnew, _, peer, rfl, rfl, ?_⟩⟩
      refine Multimap.entries_insert _ _ _ ?_ (fun e he => (mem_answering.mp he).2.1)
        fun e he => Multimap.lt_of_mem_above (List.mem_of_mem_take he)
      have hdropped := entries_dropOverdue ts _ q.mClosest
        (q.mClosest.entries_eq_upTo_append (distance q.mId id.id)) rfl
      calc _ = (q.answering (distance q.mId id.id) ts ++
            q.mClosest.above (distance q.mId id.id)).take (q.mClosestListSize - 1) :=
          congrArg (List.take _) hdropped
        _ = _ := by
          rw [List.take_append, List.take_of_length_le (Nat.le_sub_one_of_lt hlt)]

/-- What the invariant sees of an entry. -/
def place (e : Metric × Peer) : Metric × NodeId × UInt32 := (e.1, e.2.mPeerId.id, e.2.mPeerId.ip)

theorem ClosestOk.congr (hok : ClosestOk q) (hid : q'.mId = q.mId)
    (hsize : q'.mClosestListSize = q.mClosestListSize)
    (hplaces : q'.mClosest.entries.map place = q.mClosest.entries.map place) : ClosestOk q' := by
  have hlength : q'.mClosest.entries.length = q.mClosest.entries.length := by
    simpa using congrArg List.length hplaces
  refine ⟨fun e he => ?_, hlength.trans_le (hok.length_le.trans_eq hsize.symm), ?_⟩
  · obtain ⟨e', he', hplace⟩ := List.mem_map.mp (hplaces ▸ List.mem_map_of_mem (f := place) he)
    unfold place at hplace
    simp only [Prod.mk.injEq] at hplace
    rw [hid, ← hplace.1, ← hplace.2.1]
    exact hok.keyed e' he'
  · have hdistinct := hok.distinct
    have hview : ∀ l : List (Metric × Peer),
        l.Pairwise (fun a b => ¬ SimilarId a.2.mPeerId b.2.mPeerId) ↔
          (l.map place).Pairwise fun a b => ¬ (a.2.1 = b.2.1 ∧ a.2.2 = b.2.2) :=
      fun l => (List.pairwise_map (f := place)
        (R := fun a b => ¬ (a.2.1 = b.2.1 ∧ a.2.2 = b.2.2))).symm
    rw [hview, hplaces, ← hview]
    exact hdistinct

theorem place_updatePort (id : PeerAddr) (dist : Metric) (peer : Peer) :
    place (dist, updatePort id peer) = place (dist, peer) := by
  have hsimilar := updateSimilarId_similar peer.mPeerId id
  unfold place
  dsimp only
  rw [← hsimilar.1, ← hsimilar.2]
  rfl

theorem place_updateClosest (e : Metric × Peer) :
    place (e.1, updateClosest id mode ts e.2) = place e := by
  have hport : place (e.1, if mode ≠ 0 then updatePort id e.2 else e.2) = place e := by
    split
    · exact place_updatePort id e.1 e.2
    · rfl
  unfold updateClosest
  dsimp only
  split
  · exact hport
  · exact hport

theorem ClosestOk.update (hok : ClosestOk q) {p : Metric × Peer → Bool} {f : Peer → Peer}
    (hplace : ∀ e : Metric × Peer, place (e.1, f e.2) = place e) :
    ClosestOk { q with mClosest := q.mClosest.update p f } :=
  hok.congr rfl rfl (Multimap.map_modifyFirst place hplace q.mClosest.entries)

/-- A peer that is not found under its distance is not among the closest ones at all. -/
theorem ClosestOk.any_isEntryOf (hok : ClosestOk q) :
    q.mClosest.entries.any (isEntryOf (distance q.mId id.id) id) ↔
      ∃ e ∈ q.mClosest.entries, SimilarId id e.2.mPeerId := by
  rw [List.any_eq_true]
  constructor
  · rintro ⟨e, he, hentry⟩
    exact ⟨e, he, (of_decide_eq_true hentry).2⟩
  · rintro ⟨e, he, hsimilar⟩
    refine ⟨e, he, decide_eq_true ⟨?_, hsimilar⟩⟩
    rw [hok.keyed e he, hsimilar.1]

theorem kept_sublist (q : Query) (dist : Metric) (ts : Int) (n : Nat) :
    (q.answering dist ts ++ (q.mClosest.above dist).take n).Sublist q.mClosest.entries := by
  rw [q.mClosest.entries_eq_upTo_append dist]
  exact List.filter_sublist.append (List.take_sublist _ _)

theorem ClosestOk.addClosestPeer (hok : ClosestOk q) {accepted : Bool}
    (hadd : q.addClosestPeer id mode ts = (accepted, q')) : ClosestOk q' := by
  rcases addClosestPeer_cases hadd with ⟨-, -, rfl⟩ |
    ⟨hroom, -, ⟨-, rfl⟩ | ⟨hnew, closest, peer, rfl, hid, hentries⟩⟩
  · exact hok
  · exact hok.update place_updateClosest
  · have hkept := q.kept_sublist (distance q.mId id.id) ts
      (q.mClosestListSize - 1 - (q.answering (distance q.mId id.id) ts).length)
    rw [hok.any_isEntryOf, not_exists] at hnew
    constructor
    · intro e he
      dsimp only at he ⊢
      rw [hentries, List.mem_append, List.mem_cons, or_left_comm, ← List.mem_append] at he
      rcases he with rfl | he
      · rw [hid]
      · exact hok.keyed e (hkept.subset he)
    · dsimp only
      rw [hentries, List.length_append, List.length_cons, List.length_take]
      omega
    · dsimp only
      rw [hentries, List.pairwise_middle fun {_ _} hne hsimilar => hne (SimilarId.symm hsimilar),
        List.pairwise_cons]
      refine ⟨fun e he hsimilar => hnew e ⟨hkept.subset he, ?_⟩, hok.distinct.sublist hkept⟩
      rw [← hid]
      exact hsimilar

/-- What is gone was overdue or lies behind everything that is left. -/
theorem addClosestPeer_removes {accepted : Bool}
    (hadd : q.addClosestPeer id mode ts = (accepted, q')) {e : Metric × Peer}
    (he : e ∈ q.mClosest.entries)
    (hgone : ∀ e' ∈ q'.mClosest.entries, ¬ SimilarId e'.2.mPeerId e.2.mPeerId) :
    Overdue ts e.2 ∨ ∀ e' ∈ q'.mClosest.entries, e'.1 ≤ e.1 := by
  rcases addClosestPeer_cases hadd with ⟨-, -, rfl⟩ |
    ⟨hroom, -, ⟨-, rfl⟩ | ⟨hnew, closest, peer, rfl, hid, hentries⟩⟩
  · exact absurd ⟨rfl, rfl⟩ (hgone e he)
  · have hplaces : (q.mClosest.update (isEntryOf (distance q.mId id.id) id)
        (updateClosest id mode ts)).entries.map place = q.mClosest.entries.map place :=
      Multimap.map_modifyFirst place place_updateClosest _
    obtain ⟨e', he', hplace⟩ := List.mem_map.mp (hplaces ▸ List.mem_map_of_mem (f := place) he)
    unfold place at hplace
    simp only [Prod.mk.injEq] at hplace
    exact absurd ⟨hplace.2.1, hplace.2.2⟩ (hgone e' he')
  · by_cases hoverdue : Overdue ts e.2
    · exact .inl hoverdue
    · refine .inr fun e' he' => ?_
      have habsent : e ∉ closest.entries := fun hin => hgone e hin ⟨rfl, rfl⟩
      dsimp only at he'
      rw [hentries, List.mem_append, List.mem_cons, not_or, not_or] at habsent
      rw [hentries, List.mem_append, List.mem_cons] at he'
      have hfar : distance q.mId id.id < e.1 := by
        by_contra hle
        exact habsent.1 (mem_answering.mpr ⟨he, not_lt.mp hle, hoverdue⟩)
      rcases he' with he' | rfl | he'
      · exact ((mem_answering.mp he').2.1.trans_lt hfar).le
      · exact hfar.le
      · have hbehind : e ∈ (q.mClosest.above (distance q.mId id.id)).drop
            (q.mClosestListSize - 1 - (q.answering (distance q.mId id.id) ts).length) := by
          have hmem : e ∈ q.mClosest.above (distance q.mId id.id) :=
            Multimap.mem_above.mpr ⟨he, hfar⟩
          rw [← List.take_append_drop (q.mClosestListSize - 1 -
            (q.answering (distance q.mId id.id) ts).length) (q.mClosest.above _),
            List.mem_append] at hmem
          exact hmem.resolve_left habsent.2.2
        have hsorted : (q.mClosest.above (distance q.mId id.id)).Pairwise fun a b => a.1 ≤ b.1 :=
          q.mClosest.sorted.sublist List.filter_sublist
        rw [← List.take_append_drop (q.mClosestListSize - 1 -
          (q.answering (distance q.mId id.id) ts).length) (q.mClosest.above _),
          List.pairwise_append] at hsorted
        exact hsorted.2.2 e' he' e hbehind

/-- Only a list full of peers that are no farther refuses one. -/
theorem ClosestOk.addClosestPeer_refuses (hok : ClosestOk q)
    (hadd : q.addClosestPeer id mode ts = (false, q')) :
    ∀ e ∈ q'.mClosest.entries, e.1 ≤ distance q.mId id.id := by
  rcases addClosestPeer_cases hadd with ⟨hfull, -, hsame⟩ | ⟨-, haccepted, -⟩
  · intro e he
    have hall : q.answering (distance q.mId id.id) ts = q.mClosest.entries := by
      have hsub := q.kept_sublist (distance q.mId id.id) ts 0
      rw [List.take_zero, List.append_nil] at hsub
      exact hsub.eq_of_length_le (hok.length_le.trans hfull)
    rw [hsame, ← hall] at he
    exact (mem_answering.mp he).2.1
  · cases haccepted

/-! ### What the other steps leave alone -/

/-- The search goes on among the same closest peers. -/
def SameClosest (q q' : Query) : Prop :=
  q'.mId = q.mId ∧ q'.mClosest = q.mClosest ∧ q'.mClosestListSize = q.mClosestListSize

theorem ClosestOk.same (hok : ClosestOk q) (hsame : SameClosest q q') : ClosestOk q' :=
  hok.congr hsame.1 hsame.2.2 (by rw [hsame.2.1])

theorem SameClosest.trans {q'' : Query} (h : SameClosest q q') (h' : SameClosest q' q'') :
    SameClosest q q'' :=
  ⟨h'.1.trans h.1, h'.2.1.trans h.2.1, h'.2.2.trans h.2.2⟩

theorem sameClosest_trimPotentialPeersToClosest
    (htrim : q.trimPotentialPeersToClosest = some q') : SameClosest q q' := by
  unfold trimPotentialPeersToClosest at htrim
  split at htrim
  · cases htrim
    exact ⟨rfl, rfl, rfl⟩
  · obtain ⟨last, -, htrim⟩ := Option.bind_eq_some_iff.mp htrim
    cases htrim
    exact ⟨rfl, rfl, rfl⟩

theorem sameClosest_updatePotentialPeer {addType : AddType} {ping : Bool}
    (hupdate : q.updatePotentialPeer id mode addType now = some (ping, q')) : SameClosest q q' := by
  unfold updatePotentialPeer at hupdate
  dsimp only at hupdate
  split at hupdate
  · cases hupdate
    exact ⟨rfl, rfl, rfl⟩
  · obtain ⟨r, htrim, hupdate⟩ := Option.bind_eq_some_iff.mp hupdate
    cases hupdate
    have hsame := sameClosest_trimPotentialPeersToClosest htrim
    exact hsame

theorem updatePotentialPeer_defined (hne : q.mClosest.entries ≠ []) (id : PeerAddr)
    (mode : BitVec 32) (addType : AddType) (now : Int) :
    ∃ r, q.updatePotentialPeer id mode addType now = some r := by
  have htrim : ∀ potential, ∃ r,
      trimPotentialPeersToClosest { q with mPotentialPeers := potential } = some r := by
    intro potential
    unfold trimPotentialPeersToClosest
    split
    · exact ⟨_, rfl⟩
    · dsimp only
      rw [List.getLast?_eq_some_getLast hne]
      exact ⟨_, rfl⟩
  unfold updatePotentialPeer
  dsimp only
  split
  · exact ⟨_, rfl⟩
  · obtain ⟨r, hr⟩ := htrim _
    rw [hr]
    exact ⟨_, rfl⟩

theorem sameClosest_pushProxy (q : Query) (peer : Peer) : SameClosest q (q.pushProxy peer) := by
  unfold pushProxy
  split
  · exact ⟨rfl, rfl, rfl⟩
  · exact ⟨rfl, rfl, rfl⟩

theorem sameClosest_updateProxyLists (hupdate : q.updateProxyLists id mode now = some q') :
    SameClosest q q' := by
  unfold updateProxyLists at hupdate
  split at hupdate
  · cases hupdate
    exact SameClosest.trans ⟨rfl, rfl, rfl⟩ (sameClosest_pushProxy _ _)
  · obtain ⟨⟨peer, proxies⟩, -, hupdate⟩ := Option.bind_eq_some_iff.mp hupdate
    cases hupdate
    exact SameClosest.trans ⟨rfl, rfl, rfl⟩ (sameClosest_pushProxy _ _)

theorem sameClosest_getD {added : Option Query} {other : Query}
    (hadded : ∀ r, added = some r → SameClosest q r) (hother : SameClosest q other) :
    SameClosest q (added.getD other).trimProxies := by
  cases added with
  | none => exact hother.trans ⟨rfl, rfl, rfl⟩
  | some r => exact (hadded r rfl).trans ⟨rfl, rfl, rfl⟩

theorem sameClosest_addProxy (q : Query) (id : PeerAddr) (src : Option PeerAddr)
    (srcmode : BitVec 32) (now : Int) : SameClosest q (q.addProxy id src srcmode now) := by
  unfold addProxy
  split
  · exact ⟨rfl, rfl, rfl⟩
  · split
    · exact ⟨rfl, rfl, rfl⟩
    · exact sameClosest_getD (fun _ hr => sameClosest_updateProxyLists hr)
        (sameClosest_pushProxy _ _)

theorem sameClosest_updateProxy (q : Query) (id : PeerAddr) (mode : BitVec 32) (now : Int) :
    SameClosest q (q.updateProxy id mode now) :=
  sameClosest_getD (fun _ hr => sameClosest_updateProxyLists hr) ⟨rfl, rfl, rfl⟩

theorem sameClosest_removeOldPotentialPeers (q : Query) (now : Int) :
    SameClosest q (q.removeOldPotentialPeers now) := by
  unfold removeOldPotentialPeers
  split
  · exact ⟨rfl, rfl, rfl⟩
  · split
    · exact ⟨rfl, rfl, rfl⟩
    · exact ⟨rfl, rfl, rfl⟩

theorem sameClosest_finish (hfinish : q.finish now = some q') : SameClosest q q' := by
  unfold finish at hfinish
  dsimp only at hfinish
  generalize hstored : (if q.mState = .querying then
    { q with mSearchTime := (now - q.mQueryTS).bmod (2 ^ 32) } else q) = stored at hfinish
  have hsame : SameClosest q stored := by
    rw [← hstored]
    split
    · exact ⟨rfl, rfl, rfl⟩
    · exact ⟨rfl, rfl, rfl⟩
  have hcleaned := hsame.trans (sameClosest_removeOldPotentialPeers stored now)
  split at hfinish
  · cases hfinish
    exact hcleaned.trans ⟨rfl, rfl, rfl⟩
  · split at hfinish
    · cases hfinish
      exact hcleaned.trans ⟨rfl, rfl, rfl⟩
    · obtain ⟨⟨dist, potential⟩, -, hfinish⟩ := Option.bind_eq_some_iff.mp hfinish
      cases hfinish
      exact hcleaned.trans ⟨rfl, rfl, rfl⟩

theorem sameClosest_updateRetryPeriod (q : Query) (now : Int) :
    SameClosest q (q.updateRetryPeriod now) := by
  unfold updateRetryPeriod
  split
  · exact ⟨rfl, rfl, rfl⟩
  · exact ⟨rfl, rfl, rfl⟩

theorem ClosestOk.nextQuery (hok : ClosestOk q) {random : NodeId}
    {asked : Option (PeerAddr × NodeId)} (hnext : q.nextQuery random now = some (asked, q')) :
    ClosestOk q' := by
  unfold Query.nextQuery at hnext
  split at hnext
  · cases hnext
    exact hok
  · have hperiod := hok.same (sameClosest_updateRetryPeriod q now)
    generalize q.updateRetryPeriod now = u at hnext hperiod
    dsimp only at hnext
    split at hnext
    · cases hnext
      exact hperiod.update fun _ => rfl
    · split at hnext
      · cases hnext
        exact hperiod
      · split at hnext
        · cases hnext
          exact hperiod
        · obtain ⟨r, hfinish, hnext⟩ := Option.bind_eq_some_iff.mp hnext
          cases hnext
          exact hperiod.same (sameClosest_finish hfinish)

theorem addPeer_eq_some (hadd : q.addPeer id mode now = some q') :
    SameClosest (q.addClosestPeer id mode now).2 q' := by
  obtain ⟨⟨ping, r⟩, hupdate, hadd⟩ := Option.bind_eq_some_iff.mp hadd
  cases hadd
  exact (sameClosest_updatePotentialPeer hupdate).trans (sameClosest_updateProxy r id mode now)

theorem ClosestOk.step {op : Int × Op} (hok : ClosestOk q) (hstep : q.step op = some q') :
    ClosestOk q' := by
  obtain ⟨now, op⟩ := op
  cases op with
  | addPeer id mode => exact (hok.addClosestPeer rfl).same (addPeer_eq_some hstep)
  | addPotentialPeer id src srcmode =>
      obtain ⟨⟨ping, r⟩, hadd, hstep⟩ := Option.bind_eq_some_iff.mp hstep
      cases hstep
      unfold addPotentialPeer at hadd
      dsimp only at hadd
      have hproxy := hok.same (sameClosest_addProxy q id src srcmode now)
      split at hadd
      · exact hproxy.same (sameClosest_updatePotentialPeer hadd)
      · cases hadd
        exact hproxy
  | nextQuery random =>
      obtain ⟨⟨asked, r⟩, hnext, hstep⟩ := Option.bind_eq_some_iff.mp hstep
      cases hstep
      exact hok.nextQuery hnext

/-! ### The start list -/

theorem entries_foldl_insert {f : PeerAddr → Metric} {g : PeerAddr → Peer}
    (startList : List PeerAddr) (closest : Multimap Metric Peer) :
    (startList.foldl (fun closest peerId => closest.insert (f peerId) (g peerId))
      closest).entries.Perm (closest.entries ++ startList.map fun peerId => (f peerId, g peerId)) := by
  induction startList generalizing closest with
  | nil =>
      rw [List.foldl_nil, List.map_nil, List.append_nil]
  | cons peerId startList ih =>
      rw [List.foldl_cons, List.map_cons]
      exact (ih _).trans (((closest.insert_perm _ _).append_right _).trans
        List.perm_middle.symm)

theorem closestOk_new (id : NodeId) {startList : List PeerAddr} (queryFlags : BitVec 32)
    {numQueryNodes : Nat} (now : Int)
    (hdistinct : startList.Pairwise fun a b => ¬ SimilarId a b)
    (hlength : startList.length ≤ 3 * numQueryNodes / 2) :
    ClosestOk (new id startList queryFlags numQueryNodes now) := by
  have hperm : (new id startList queryFlags numQueryNodes now).mClosest.entries.Perm _ :=
    entries_foldl_insert startList .empty
  constructor
  · intro e he
    have hmem := hperm.mem_iff.mp he
    obtain ⟨peerId, -, rfl⟩ := List.mem_map.mp hmem
    rfl
  · rw [hperm.length_eq]
    exact (List.length_map _).trans_le hlength
  · rw [hperm.pairwise_iff fun {_ _} hne hsimilar => hne (SimilarId.symm hsimilar)]
    exact List.pairwise_map.mpr hdistinct

theorem closestOk_of_reaches {id : NodeId} {startList : List PeerAddr} {queryFlags : BitVec 32}
    {numQueryNodes : Nat} {start : Int}
    (hdistinct : startList.Pairwise fun a b => ¬ SimilarId a b)
    (hlength : startList.length ≤ 3 * numQueryNodes / 2)
    (hreach : Reaches step (fun _ _ => True) (new id startList queryFlags numQueryNodes start) q) :
    ClosestOk q :=
  hreach.invariant ClosestOk (fun _ _ _ hok _ hstep => hok.step hstep)
    (closestOk_new id queryFlags start hdistinct hlength)

/-! ### The answer of a known peer -/

theorem modifyFirst_eq {Elem : Type} {p : Elem → Bool} {f : Elem → Elem} {l : List Elem} {a : Elem}
    (hfind : l.find? p = some a) : ∃ before after,
      l = before ++ a :: after ∧ Multimap.modifyFirst p f l = before ++ f a :: after := by
  induction l with
  | nil => cases hfind
  | cons b l ih =>
      rw [List.find?_cons] at hfind
      rw [Multimap.modifyFirst]
      split at hfind
      · next hp =>
          cases hfind
          exact ⟨[], l, rfl, if_pos hp⟩
      · next hp =>
          obtain ⟨before, after, hl, hmodify⟩ := ih hfind
          refine ⟨b :: before, after, by rw [hl]; rfl, ?_⟩
          rw [if_neg (by simp [hp]), hmodify]
          rfl

theorem ClosestOk.unique (hok : ClosestOk q) {e e' : Metric × Peer}
    (he : e ∈ q.mClosest.entries) (he' : e' ∈ q.mClosest.entries)
    (hsimilar : SimilarId e.2.mPeerId e'.2.mPeerId) : e = e' := by
  obtain ⟨before, after, hsplit⟩ := List.append_of_mem he
  have hdistinct := hok.distinct
  rw [hsplit, List.pairwise_middle fun {_ _} hne h => hne (SimilarId.symm h),
    List.pairwise_cons] at hdistinct
  rw [hsplit, List.mem_append, List.mem_cons, or_left_comm, ← List.mem_append] at he'
  rcases he' with rfl | he'
  · rfl
  · exact absurd hsimilar (hdistinct.1 e' he')

theorem lastRecvTime_updateClosest (hmode : mode &&& statusRecvNodes ≠ 0) (peer : Peer) :
    (updateClosest id mode ts peer).mLastRecvTime = ts := by
  unfold updateClosest
  rw [if_pos hmode]

/-- **The answer is noted** when a full list does not end before the peer, or was noted just now. -/
theorem ClosestOk.addPeer_notes (hok : ClosestOk q) (hmode : mode &&& statusRecvNodes ≠ 0)
    {e : Metric × Peer} (he : e ∈ q.mClosest.entries) (hsimilar : SimilarId id e.2.mPeerId) :
    ∃ q', q.addPeer id mode ts = some q' ∧
      ((∃ e' ∈ q'.mClosest.entries, SimilarId id e'.2.mPeerId ∧ e'.2.mLastRecvTime = ts) ↔
        (q.answering (distance q.mId id.id) ts).length < q.mClosestListSize ∨
          e.2.mLastRecvTime = ts) := by
  have hknown : q.mClosest.entries.any (isEntryOf (distance q.mId id.id) id) :=
    hok.any_isEntryOf.mpr ⟨e, he, hsimilar⟩
  generalize hadd : q.addClosestPeer id mode ts = r
  obtain ⟨accepted, u⟩ := r
  have hpeers : u.mClosest.entries ≠ [] ∧
      ((∃ e' ∈ u.mClosest.entries, SimilarId id e'.2.mPeerId ∧ e'.2.mLastRecvTime = ts) ↔
        (q.answering (distance q.mId id.id) ts).length < q.mClosestListSize ∨
          e.2.mLastRecvTime = ts) := by
    rcases addClosestPeer_cases hadd with ⟨hfull, -, hsame⟩ |
      ⟨hroom, -, ⟨-, rfl⟩ | ⟨hnew, -⟩⟩
    · rw [hsame]
      refine ⟨List.ne_nil_of_mem he, fun hnoted => .inr ?_, fun h => ?_⟩
      · obtain ⟨e', he', hsimilar', hnoted⟩ := hnoted
        rw [hok.unique he he' (hsimilar.symm.trans hsimilar')]
        exact hnoted
      · exact ⟨e, he, hsimilar, h.resolve_left (Nat.not_lt.mpr hfull)⟩
    · obtain ⟨found, hfound⟩ := Option.isSome_iff_exists.mp
        (List.find?_isSome.mpr (List.any_eq_true.mp hknown))
      have hentry : isEntryOf (distance q.mId id.id) id found := List.find?_some hfound
      obtain ⟨before, after, -, hmodify⟩ := modifyFirst_eq (f := fun e : Metric × Peer =>
        (e.1, updateClosest id mode ts e.2)) hfound
      have hmem : (found.1, updateClosest id mode ts found.2) ∈ (q.mClosest.update
          (isEntryOf (distance q.mId id.id) id) (updateClosest id mode ts)).entries := by
        have hin := List.mem_append_right before (List.mem_cons_self (a := (found.1,
          updateClosest id mode ts found.2)) (l := after))
        rw [← hmodify] at hin
        exact hin
      have hplace : place (found.1, updateClosest id mode ts found.2) = place found :=
        place_updateClosest found
      refine ⟨List.ne_nil_of_mem hmem, fun _ => .inl hroom, fun _ => ⟨_, hmem, ?_,
        lastRecvTime_updateClosest hmode found.2⟩⟩
      unfold place at hplace
      simp only [Prod.mk.injEq] at hplace
      have hid := (of_decide_eq_true hentry).2
      exact ⟨hid.1.trans hplace.2.1.symm, hid.2.trans hplace.2.2.symm⟩
    · exact absurd hknown hnew
  obtain ⟨⟨ping, v⟩, hv⟩ := updatePotentialPeer_defined hpeers.1 id mode .peerMessage ts
  have hdefined : q.addPeer id mode ts = some (v.updateProxy id mode ts) := by
    unfold addPeer
    rw [hadd]
    dsimp only
    rw [hv]
    rfl
  have hsame := (sameClosest_updatePotentialPeer hv).trans (sameClosest_updateProxy v id mode ts)
  refine ⟨_, hdefined, ?_⟩
  rw [hsame.2.1]
  exact hpeers.2

/-- **Query bookkeeping.** The closest peers are kept as `ClosestOk` says, no peer has to go or stay
out while a farther one is kept unless it is overdue, and the answer of a known peer is noted exactly
when the peers up to its distance that are not overdue do not fill the list, or it was noted in the
same second already. -/
theorem query_bookkeeping (id : NodeId) (startList : List PeerAddr) (queryFlags : BitVec 32)
    (numQueryNodes : Nat) (start : Int)
    (hdistinct : startList.Pairwise fun a b => ¬ SimilarId a b)
    (hlength : startList.length ≤ 3 * numQueryNodes / 2) (q : Query)
    (hreach : Reaches step (fun _ _ => True) (new id startList queryFlags numQueryNodes start) q) :
    ClosestOk q ∧
      (∀ peer mode ts accepted q', q.addClosestPeer peer mode ts = (accepted, q') →
        (accepted = false → ∀ e ∈ q'.mClosest.entries, e.1 ≤ distance q.mId peer.id) ∧
          ∀ e ∈ q.mClosest.entries,
            (∀ e' ∈ q'.mClosest.entries, ¬ SimilarId e'.2.mPeerId e.2.mPeerId) →
              Overdue ts e.2 ∨ ∀ e' ∈ q'.mClosest.entries, e'.1 ≤ e.1) ∧
      ∀ peer (mode : BitVec 32) ts, mode &&& statusRecvNodes ≠ 0 →
        ∀ e ∈ q.mClosest.entries, SimilarId peer e.2.mPeerId →
          ∃ q', q.addPeer peer mode ts = some q' ∧
            ((∃ e' ∈ q'.mClosest.entries, SimilarId peer e'.2.mPeerId ∧
                e'.2.mLastRecvTime = ts) ↔
              (q.answering (distance q.mId peer.id) ts).length < q.mClosestListSize ∨
                e.2.mLastRecvTime = ts) := by
  have hok := closestOk_of_reaches hdistinct hlength hreach
  refine ⟨hok, fun peer mode ts accepted q' hadd => ⟨fun haccepted => ?_, fun e he hgone => ?_⟩,
    fun peer mode ts hmode e he hsimilar => hok.addPeer_notes hmode he hsimilar⟩
  · exact hok.addClosestPeer_refuses (haccepted ▸ hadd)
  · exact addClosestPeer_removes hadd he hgone

def sampleNode (byte : UInt8) : NodeId :=
  ⟨byte :: List.replicate (keyLen - 1) 0, rfl⟩

def samplePeer (byte : UInt8) : PeerAddr := ⟨sampleNode byte, 0x7f000001, 6881⟩

def sampleStart : List PeerAddr :=
  [1, 2, 3, 4, 5, 6, 7, 8, 9, 10, 11, 12, 13, 14, 15].map samplePeer

theorem query_bookkeeping_sample : ClosestOk (new (sampleNode 0) sampleStart 0 10 0) :=
  (query_bookkeeping (sampleNode 0) sampleStart 0 10 0 (by decide) (by decide) _ (.refl _)).1

/-- The farthest peer of a full list answers, and nothing is noted. -/
theorem query_bookkeeping_counterexample :
    ∃ q q', Reaches step (fun _ _ => True) (new (sampleNode 0) sampleStart 0 10 0) q ∧
      (∃ e ∈ q.mClosest.entries, SimilarId (samplePeer 15) e.2.mPeerId) ∧
      q.addPeer (samplePeer 15) statusRecvNodes 100 = some q' ∧
      ∀ e ∈ q'.mClosest.entries, SimilarId (samplePeer 15) e.2.mPeerId →
        e.2.mLastRecvTime = 0 := by
  have hadd : ∃ q', (new (sampleNode 0) sampleStart 0 10 0).addPeer (samplePeer 15) statusRecvNodes
      100 = some q' ∧ ∀ e ∈ q'.mClosest.entries, SimilarId (samplePeer 15) e.2.mPeerId →
        e.2.mLastRecvTime = 0 := ⟨_, rfl, by decide⟩
  obtain ⟨q', hadd, hnone⟩ := hadd
  exact ⟨_, q', .refl _, by decide, hadd, hnone⟩

end Dht.Query

end RetroShare
