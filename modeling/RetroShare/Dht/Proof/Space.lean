import RetroShare.Dht.Space
import RetroShare.Foundation.Transition
import Mathlib.Tactic

/-!
# The routing table is complete for its lookups

Placement, uniqueness, capacity and order only depend on the address and the time last heard of, in
the order of the bucket. Most operations leave that alone or take entries out of it; only `add_peer`
puts one in, at the back.
-/

namespace RetroShare.Dht

open Transition

/-! ### One bucket -/

/-- What the invariant sees of a peer. -/
def Peer.sighting (peer : Peer) : PeerAddr × Int := (peer.mPeerId, peer.mLastRecvTime)

def sightings (entries : List Peer) : List (PeerAddr × Int) := entries.map Peer.sighting

theorem sightings_append (entries entries' : List Peer) :
    sightings (entries ++ entries') = sightings entries ++ sightings entries' :=
  List.map_append

theorem sightings_cons (peer : Peer) (entries : List Peer) :
    sightings (peer :: entries) = peer.sighting :: sightings entries := rfl

theorem length_sightings (entries : List Peer) : (sightings entries).length = entries.length :=
  List.length_map _

/-- The sightings of one bucket. -/
structure BucketOk (nodesPerBucket : Nat) (ownId : NodeId) (clock : Int) (bucket : Nat)
    (seen : List (PeerAddr × Int)) : Prop where
  placed : ∀ sighting ∈ seen, bucketDistance (distance ownId sighting.1.id) = bucket
  distinct : seen.Pairwise fun a b => ¬ SimilarId a.1 b.1
  length_le : seen.length ≤ nodesPerBucket
  ordered : seen.Pairwise fun a b => a.2 ≤ b.2
  past : ∀ sighting ∈ seen, sighting.2 ≤ clock

variable {nodesPerBucket bucket : Nat} {ownId : NodeId} {clock ts : Int}
  {seen seen' : List (PeerAddr × Int)}

theorem BucketOk.nil : BucketOk nodesPerBucket ownId clock bucket [] :=
  ⟨nofun, .nil, Nat.zero_le _, .nil, nofun⟩

theorem BucketOk.sublist (hok : BucketOk nodesPerBucket ownId clock bucket seen)
    (hsub : seen'.Sublist seen) : BucketOk nodesPerBucket ownId clock bucket seen' where
  placed sighting hmem := hok.placed sighting (hsub.subset hmem)
  distinct := hok.distinct.sublist hsub
  length_le := hsub.length_le.trans hok.length_le
  ordered := hok.ordered.sublist hsub
  past sighting hmem := hok.past sighting (hsub.subset hmem)

theorem BucketOk.later (hok : BucketOk nodesPerBucket ownId clock bucket seen)
    (hclock : clock ≤ ts) : BucketOk nodesPerBucket ownId ts bucket seen :=
  { hok with past := fun sighting hmem => (hok.past sighting hmem).trans hclock }

/-- A peer that is heard of now goes to the back. -/
theorem BucketOk.push (hok : BucketOk nodesPerBucket ownId clock bucket seen) {id : PeerAddr}
    (hplaced : bucketDistance (distance ownId id.id) = bucket)
    (hfresh : ∀ sighting ∈ seen, ¬ SimilarId sighting.1 id)
    (hroom : seen.length < nodesPerBucket) (hclock : clock ≤ ts) :
    BucketOk nodesPerBucket ownId ts bucket (seen ++ [(id, ts)]) where
  placed := by
    rw [List.forall_mem_append, List.forall_mem_singleton]
    exact ⟨hok.placed, hplaced⟩
  distinct := by
    rw [List.pairwise_append]
    refine ⟨hok.distinct, List.pairwise_singleton _ _, fun a ha b hb => ?_⟩
    rw [List.mem_singleton.mp hb]
    exact hfresh a ha
  length_le := by
    rw [List.length_append]
    exact hroom
  ordered := by
    rw [List.pairwise_append]
    refine ⟨hok.ordered, List.pairwise_singleton _ _, fun a ha b hb => ?_⟩
    rw [List.mem_singleton.mp hb]
    exact (hok.past a ha).trans hclock
  past := by
    rw [List.forall_mem_append, List.forall_mem_singleton]
    exact ⟨fun sighting hmem => (hok.past sighting hmem).trans hclock, le_refl ts⟩

/-! ### Adding to a bucket -/

namespace Space

/-- Only the evicted peer is not kept. -/
theorem not_mem_eraseP {p : Peer → Bool} {entries : List Peer} {peer : Peer}
    (hmem : peer ∈ entries) (hgone : peer ∉ entries.eraseP p) : p peer = true := by
  by_contra hp
  exact hgone ((List.mem_eraseP_of_neg hp).mpr hmem)

/-- What `add_peer` can do to a bucket: move a similar peer to the back, put a new one there, perhaps
for another one, or leave the bucket as it is. -/
theorem addToBucket_cases {id : PeerAddr} {peerflags : BitVec 32} {entries entries' : List Peer}
    {add : Bool}
    (hadd : addToBucket nodesPerBucket id peerflags ts entries = some (add, entries')) :
    (∃ before peer after peer', entries = before ++ peer :: after ∧
      entries' = before ++ after ++ [peer'] ∧ SimilarId id peer.mPeerId ∧
      SimilarId peer'.mPeerId peer.mPeerId ∧ peer'.mLastRecvTime = ts) ∨
    (∀ peer ∈ entries, ¬ SimilarId id peer.mPeerId) ∧
      ((∃ kept newPeer, entries' = kept ++ [newPeer] ∧ newPeer.sighting = (id, ts) ∧
        kept.Sublist entries ∧
        (kept.length < nodesPerBucket ∨ kept.length < entries.length) ∧
        ∀ peer ∈ entries, peer ∉ kept →
          ts - peer.mLastRecvTime > maxRecvPeriod ∨ peer.mPeerFlags < peerflags) ∨
      entries' = entries) := by
  unfold addToBucket at hadd
  split at hadd
  · next peer hfind =>
    obtain ⟨hsimilar, before, after, rfl, hbefore⟩ := List.find?_eq_some_iff_append.mp hfind
    have hport := updateSimilarId_similar peer.mPeerId id
    generalize updateSimilarId peer.mPeerId id = port at hadd hport
    obtain ⟨updated, peerId⟩ := port
    obtain ⟨-, rfl⟩ := Prod.mk.inj (Option.some.inj hadd)
    have herase : (before ++ peer :: after).eraseP (fun peer => SimilarId id peer.mPeerId) =
        before ++ after := by
      rw [List.eraseP_append_right _ fun other hother => by simpa using hbefore other hother,
        List.eraseP_cons_of_pos (by exact hsimilar)]
    rw [herase]
    exact .inl ⟨before, peer, after, _, rfl, rfl, of_decide_eq_true hsimilar, hport, rfl⟩
  · next hfind =>
    refine .inr ⟨fun peer hmem hsimilar => ?_, ?_⟩
    · exact List.find?_eq_none.mp hfind peer hmem (decide_eq_true hsimilar)
    · dsimp only at hadd
      split at hadd
      · next hroom =>
        obtain ⟨-, rfl⟩ := Prod.mk.inj (Option.some.inj hadd)
        exact .inl ⟨entries, _, rfl, rfl, .refl _, .inl hroom, fun peer hmem hgone =>
          absurd hmem hgone⟩
      · split at hadd
        · cases hadd
        · next _ front rest hfull =>
          split at hadd
          · next hold =>
            obtain ⟨-, rfl⟩ := Prod.mk.inj (Option.some.inj hadd)
            refine .inl ⟨rest, _, rfl, rfl, List.sublist_cons_self _ _, .inr (Nat.lt_succ_self _),
              fun peer hmem hgone => .inl ?_⟩
            rcases List.mem_cons.mp hmem with rfl | hmem
            · exact hold
            · exact absurd hmem hgone
          · split at hadd
            · next hlower =>
              obtain ⟨hlower, hany⟩ := hlower
              obtain ⟨lowest, hlowest, hscore⟩ := List.any_eq_true.mp hany
              obtain ⟨-, rfl⟩ := Prod.mk.inj (Option.some.inj hadd)
              refine .inl ⟨_, _, rfl, rfl, List.eraseP_sublist, .inr ?_,
                fun peer hmem hgone => .inr ?_⟩
              · rw [List.length_eraseP_of_mem hlowest hscore]
                exact Nat.lt_succ_self _
              · have hflags := of_decide_eq_true (not_mem_eraseP hmem hgone)
                rw [hflags]
                exact hlower
            · obtain ⟨-, rfl⟩ := Prod.mk.inj (Option.some.inj hadd)
              exact .inr rfl

/-! ### Operations that put nothing in -/

/-- Every bucket keeps some of its peers, in their order. -/
def Thinned (buckets' buckets : List (List Peer)) : Prop :=
  List.Forall₂ (fun entries' entries => (sightings entries').Sublist (sightings entries))
    buckets' buckets

theorem sighting_scanAttached (s : Space) (ts : Int) (scan : Scan) (peer : Peer) :
    (s.scanAttached ts scan peer).2.2.sighting = peer.sighting := by
  unfold scanAttached
  split
  · dsimp only
    split
    · rfl
    · rfl
  · rfl

theorem sighting_scanSent (ts : Int) (added : Bool) (scan : Scan) (peer : Peer) :
    (scanSent ts added scan peer).2.sighting = peer.sighting := by
  unfold scanSent
  split
  · rfl
  · rfl

theorem sightings_scanBucket (s : Space) (ts : Int) (scan : Scan) (entries : List Peer) :
    (sightings (s.scanBucket ts scan entries).2).Sublist (sightings entries) := by
  induction entries generalizing scan with
  | nil => exact .refl _
  | cons peer entries ih =>
      have hsighting : (scanSent ts (s.scanAttached ts scan peer).1
          (s.scanAttached ts scan peer).2.1 (s.scanAttached ts scan peer).2.2).2.sighting =
          peer.sighting :=
        (sighting_scanSent _ _ _ _).trans (sighting_scanAttached s ts scan peer)
      rw [scanBucket]
      dsimp only
      split
      · exact (ih _).trans (List.sublist_cons_self _ _)
      · unfold sightings
        rw [List.map_cons, List.map_cons, hsighting]
        exact (ih _).cons_cons _

theorem thinned_scanBuckets (s : Space) (ts : Int) (scan : Scan) (buckets : List (List Peer)) :
    Thinned (s.scanBuckets ts scan buckets).2 buckets := by
  induction buckets generalizing scan with
  | nil => exact .nil
  | cons entries buckets ih => exact .cons (s.sightings_scanBucket ts scan entries) (ih _)

theorem sightings_mapAccumr (s : Space) (attaching : Attaching) (entries : List Peer) :
    sightings (entries.mapAccumr s.attachEntry attaching).2 = sightings entries := by
  induction entries with
  | nil => rfl
  | cons peer entries ih =>
      have hsighting : ∀ attaching, (s.attachEntry peer attaching).2.sighting = peer.sighting := by
        intro attaching
        unfold attachEntry
        split
        · rfl
        · rfl
      unfold sightings at ih ⊢
      change List.map _ ((s.attachEntry peer (entries.mapAccumr s.attachEntry attaching).1).2 ::
        (entries.mapAccumr s.attachEntry attaching).2) = _
      rw [List.map_cons, List.map_cons, ih, hsighting]

theorem thinned_refl (buckets : List (List Peer)) : Thinned buckets buckets :=
  List.forall₂_same.mpr fun _ _ => .refl _

theorem Thinned.trans {buckets buckets' buckets'' : List (List Peer)}
    (h' : Thinned buckets'' buckets') (h : Thinned buckets' buckets) : Thinned buckets'' buckets := by
  induction h' generalizing buckets with
  | nil => exact h
  | cons hhead' _ ih =>
      cases h with
      | cons hhead htail => exact .cons (hhead'.trans hhead) (ih htail)

theorem thinned_set {buckets : List (List Peer)} {bucket : Nat} {entries entries' : List Peer}
    (hentries : buckets[bucket]? = some entries)
    (hsub : (sightings entries').Sublist (sightings entries)) :
    Thinned (buckets.set bucket entries') buckets := by
  unfold Thinned
  rw [List.forall₂_iff_get]
  refine ⟨List.length_set, fun i h' h => ?_⟩
  rw [List.get_eq_getElem, List.get_eq_getElem, List.getElem_set]
  split
  · next hi =>
      subst hi
      rw [List.getElem?_eq_getElem h, Option.some_inj] at hentries
      rw [hentries]
      exact hsub
  · exact .refl _

theorem thinned_map {f : List Peer → List Peer}
    (hsub : ∀ entries, (sightings (f entries)).Sublist (sightings entries))
    (buckets : List (List Peer)) : Thinned (buckets.map f) buckets :=
  List.forall₂_map_left_iff.mpr (List.forall₂_same.mpr fun entries _ => hsub entries)

/-- Changing what a sighting does not show leaves the sightings alone. -/
theorem sightings_map {f : Peer → Peer} (hsighting : ∀ peer, (f peer).sighting = peer.sighting)
    (entries : List Peer) : sightings (entries.map f) = sightings entries := by
  unfold sightings
  rw [List.map_map]
  exact List.map_congr_left fun peer _ => hsighting peer

theorem thinned_attachBuckets (s : Space) (attaching : Attaching) (buckets : List (List Peer)) :
    Thinned (s.attachBuckets attaching buckets) buckets := by
  induction buckets generalizing attaching with
  | nil => exact .nil
  | cons entries buckets ih => exact .cons (s.sightings_mapAccumr attaching entries ▸ .refl _) (ih _)

theorem thinned_updateAttachedPeers (s : Space) : Thinned s.updateAttachedPeers.buckets s.buckets := by
  have happend : Thinned (s.buckets.take 1 ++ s.attachBuckets ⟨0 < s.mAttachedCount, 0⟩
      (s.buckets.drop 1)) (s.buckets.take 1 ++ s.buckets.drop 1) :=
    List.rel_append (thinned_refl _) (s.thinned_attachBuckets _ _)
  rw [List.take_append_drop] at happend
  exact happend

theorem thinned_scanOutOfDatePeers (s : Space) (ts : Int) :
    Thinned (s.scanOutOfDatePeers ts).2.buckets s.buckets := by
  have hscan := s.thinned_scanBuckets ts ⟨[], 0⟩ s.buckets
  unfold scanOutOfDatePeers
  dsimp only
  split
  · exact (thinned_updateAttachedPeers _).trans hscan
  · exact hscan

theorem thinned_clear (s : Space) : Thinned s.clear.buckets s.buckets :=
  thinned_map (fun _ => show (sightings []).Sublist _ from List.nil_sublist _) s.buckets

theorem thinned_cleanNodeFlags (s : Space) (flags : BitVec 32) :
    Thinned (s.cleanNodeFlags flags).2.buckets s.buckets := by
  refine thinned_map (fun _ => ?_) s.buckets
  rw [sightings_map fun peer => ?_]
  split
  · rfl
  · rfl

theorem thinned_flagpeer {s t : Space} {id : PeerAddr} {flags exFlags : BitVec 32}
    (hflag : s.flagpeer id flags exFlags = some t) :
    Thinned t.buckets s.buckets ∧ t.mOwnId = s.mOwnId := by
  obtain ⟨entries, hentries, hflag⟩ := Option.bind_eq_some_iff.mp hflag
  cases hflag
  refine ⟨thinned_set hentries ?_, rfl⟩
  rw [sightings_map fun peer => ?_]
  split
  · rfl
  · rfl

theorem ownId_scanOutOfDatePeers (s : Space) (ts : Int) :
    (s.scanOutOfDatePeers ts).2.mOwnId = s.mOwnId := by
  unfold scanOutOfDatePeers
  dsimp only
  split
  · rfl
  · rfl

/-! ### The whole table -/

structure SpaceOk (nodesPerBucket : Nat) (clock : Int) (s : Space) : Prop where
  length_buckets : s.buckets.length = keyBitLen
  bucket : ∀ i entries, s.buckets[i]? = some entries →
    BucketOk nodesPerBucket s.mOwnId clock i (sightings entries)

theorem spaceOk_new (ownId : NodeId) (clock : Int) : SpaceOk nodesPerBucket clock (new ownId) where
  length_buckets := List.length_replicate
  bucket i entries hentries := by
    have hnil : entries = [] := List.eq_of_mem_replicate (List.mem_of_getElem? hentries)
    rw [hnil]
    exact .nil

variable {s t : Space}

theorem SpaceOk.later (hok : SpaceOk nodesPerBucket clock s) (hclock : clock ≤ ts) :
    SpaceOk nodesPerBucket ts s :=
  ⟨hok.length_buckets, fun i entries hentries => (hok.bucket i entries hentries).later hclock⟩

theorem SpaceOk.thin (hok : SpaceOk nodesPerBucket clock s) (hthin : Thinned t.buckets s.buckets)
    (hown : t.mOwnId = s.mOwnId) : SpaceOk nodesPerBucket clock t := by
  obtain ⟨hlength, hsub⟩ := List.forall₂_iff_get.mp hthin
  refine ⟨hlength.trans hok.length_buckets, fun i entries hentries => ?_⟩
  obtain ⟨hlt, rfl⟩ := List.getElem?_eq_some_iff.mp hentries
  rw [hown]
  exact (hok.bucket i _ (List.getElem?_eq_getElem (hlength ▸ hlt))).sublist (hsub i hlt _)

theorem SpaceOk.set (hok : SpaceOk nodesPerBucket clock s) (hclock : clock ≤ ts) {i : Nat}
    {entries : List Peer} (hentries : BucketOk nodesPerBucket s.mOwnId ts i (sightings entries)) :
    SpaceOk nodesPerBucket ts { s with buckets := s.buckets.set i entries } where
  length_buckets := List.length_set.trans hok.length_buckets
  bucket j entries' hentries' := by
    dsimp only at hentries'
    rw [List.getElem?_set] at hentries'
    split at hentries'
    · next hij =>
        split at hentries'
        · cases hentries'
          rw [← hij]
          exact hentries
        · cases hentries'
    · exact (hok.bucket j entries' hentries').later hclock

theorem addToBucket_ok {id : PeerAddr} {peerflags : BitVec 32} {entries entries' : List Peer}
    {add : Bool} (hok : BucketOk nodesPerBucket ownId clock bucket (sightings entries))
    (hplaced : bucketDistance (distance ownId id.id) = bucket) (hclock : clock ≤ ts)
    (hadd : addToBucket nodesPerBucket id peerflags ts entries = some (add, entries')) :
    BucketOk nodesPerBucket ownId ts bucket (sightings entries') := by
  rcases addToBucket_cases hadd with ⟨before, peer, after, peer', rfl, rfl, hid, hpeer', htime⟩ |
    ⟨hnew, ⟨kept, newPeer, rfl, hsighting, hsub, hroom, -⟩ | rfl⟩
  · have hmiddle : (sightings before ++ sightings after).Sublist
        (sightings (before ++ peer :: after)) := by
      rw [sightings_append, sightings_cons]
      exact (List.sublist_cons_self _ _).append_left _
    have hsight : sightings (before ++ after ++ [peer']) =
        sightings before ++ sightings after ++ [(peer'.mPeerId, ts)] := by
      rw [sightings_append, sightings_append, sightings_cons, Peer.sighting, htime]
      rfl
    have hothers : ∀ sighting ∈ sightings before ++ sightings after,
        ¬ SimilarId peer.mPeerId sighting.1 := by
      have hdistinct := hok.distinct
      rw [sightings_append, sightings_cons, List.pairwise_middle fun {_ _} hne hsimilar =>
        hne (SimilarId.symm hsimilar), List.pairwise_cons] at hdistinct
      exact hdistinct.1
    have hlength := hok.length_le
    rw [sightings_append, sightings_cons, List.length_append, List.length_cons] at hlength
    rw [hsight]
    refine (hok.sublist hmiddle).push ?_ ?_ ?_ hclock
    · rw [(hpeer'.trans hid.symm).1]
      exact hplaced
    · intro sighting hmem hsimilar
      exact hothers sighting hmem (hsimilar.trans hpeer').symm
    · rw [List.length_append]
      exact hlength
  · have hsight : sightings (kept ++ [newPeer]) = sightings kept ++ [(id, ts)] := by
      rw [sightings_append, sightings_cons, hsighting]
      rfl
    have hlength := hok.length_le
    rw [length_sightings] at hlength
    rw [hsight]
    refine (hok.sublist (hsub.map _)).push hplaced ?_ ?_ hclock
    · intro sighting hmem hsimilar
      obtain ⟨peer, hpeer, rfl⟩ := List.mem_map.mp hmem
      exact hnew peer (hsub.subset hpeer) hsimilar.symm
    · rw [List.length_map]
      exact hroom.elim (fun hlt => hlt) fun hlt => hlt.trans_le hlength
  · exact hok.later hclock

theorem addPeer_eq_some {id : PeerAddr} {peerflags : BitVec 32} {add : Bool}
    (hadd : s.addPeer nodesPerBucket id peerflags ts = some (add, t)) :
    ∃ entries entries', s.buckets[bucketDistance (distance s.mOwnId id.id)]? = some entries ∧
      addToBucket nodesPerBucket id peerflags ts entries = some (add, entries') ∧
      t = { s with
        buckets := s.buckets.set (bucketDistance (distance s.mOwnId id.id)) entries' } := by
  obtain ⟨entries, hentries, hadd⟩ := Option.bind_eq_some_iff.mp hadd
  obtain ⟨⟨_, entries'⟩, hbucket, hadd⟩ := Option.bind_eq_some_iff.mp hadd
  cases hadd
  exact ⟨entries, entries', hentries, hbucket, rfl⟩

theorem SpaceOk.addPeer (hok : SpaceOk nodesPerBucket clock s) {id : PeerAddr}
    {peerflags : BitVec 32} {add : Bool} (hclock : clock ≤ ts)
    (hadd : s.addPeer nodesPerBucket id peerflags ts = some (add, t)) :
    SpaceOk nodesPerBucket ts t := by
  obtain ⟨entries, entries', hentries, hbucket, rfl⟩ := addPeer_eq_some hadd
  exact hok.set hclock (addToBucket_ok (hok.bucket _ entries hentries) rfl hclock hbucket)

theorem addPeer_defined (hok : SpaceOk nodesPerBucket clock s) (hroom : 0 < nodesPerBucket)
    (id : PeerAddr) (peerflags : BitVec 32) (ts : Int) :
    (s.addPeer nodesPerBucket id peerflags ts).isSome := by
  have hlt : bucketDistance (distance s.mOwnId id.id) < s.buckets.length := by
    rw [hok.length_buckets]
    exact bucketDistance_lt _
  have hbucket : ∀ entries, (addToBucket nodesPerBucket id peerflags ts entries).isSome := by
    intro entries
    unfold addToBucket
    split
    · rfl
    · dsimp only
      split
      · rfl
      · split
        · next hfull => exact absurd hroom hfull
        · split
          · rfl
          · split
            · rfl
            · rfl
  obtain ⟨r, hr⟩ := Option.isSome_iff_exists.mp
    (hbucket s.buckets[bucketDistance (distance s.mOwnId id.id)])
  unfold addPeer
  dsimp only
  rw [List.getElem?_eq_getElem hlt, Option.bind_eq_bind, Option.bind_some, hr]
  rfl

/-! ### What it means for the whole table -/

def peers (s : Space) : List Peer := s.buckets.flatten

theorem mem_peers {peer : Peer} :
    peer ∈ s.peers ↔
      ∃ (i : Nat) (entries : List Peer), s.buckets[i]? = some entries ∧ peer ∈ entries := by
  unfold peers
  rw [List.mem_flatten]
  constructor
  · rintro ⟨entries, hentries, hmem⟩
    obtain ⟨i, hi⟩ := List.mem_iff_getElem?.mp hentries
    exact ⟨i, entries, hi, hmem⟩
  · rintro ⟨i, entries, hi, hmem⟩
    exact ⟨entries, List.mem_of_getElem? hi, hmem⟩

theorem SpaceOk.placed (hok : SpaceOk nodesPerBucket clock s) {i : Nat} {entries : List Peer}
    (hentries : s.buckets[i]? = some entries) {peer : Peer} (hmem : peer ∈ entries) :
    bucketDistance (distance s.mOwnId peer.mPeerId.id) = i :=
  (hok.bucket i entries hentries).placed peer.sighting (List.mem_map.mpr ⟨peer, hmem, rfl⟩)

theorem SpaceOk.distinct (hok : SpaceOk nodesPerBucket clock s) :
    s.peers.Pairwise fun a b => ¬ SimilarId a.mPeerId b.mPeerId := by
  unfold peers
  rw [List.pairwise_flatten]
  constructor
  · intro entries hentries
    obtain ⟨i, hi⟩ := List.mem_iff_getElem?.mp hentries
    exact List.pairwise_map.mp (hok.bucket i entries hi).distinct
  · rw [List.pairwise_iff_getElem]
    intro i j hi hj hij a ha b hb hsimilar
    have hai := hok.placed (List.getElem?_eq_getElem hi) ha
    have hbj := hok.placed (List.getElem?_eq_getElem hj) hb
    rw [hsimilar.1, hbj] at hai
    exact hij.ne' hai

theorem filter_flatten {Elem : Type} {p : Elem → Bool} {lists : List (List Elem)} {i : Nat}
    {list : List Elem} (hlist : lists[i]? = some list)
    (hothers : ∀ j other, lists[j]? = some other → ∀ a ∈ other, p a = true → j = i) :
    lists.flatten.filter p = list.filter p := by
  induction lists generalizing i with
  | nil => cases hlist
  | cons head lists ih =>
      rw [List.flatten_cons, List.filter_append]
      cases i with
      | zero =>
          cases hlist
          have hrest : lists.flatten.filter p = [] := by
            rw [List.filter_eq_nil_iff]
            intro a ha hp
            obtain ⟨other, hother, ha⟩ := List.mem_flatten.mp ha
            obtain ⟨j, hj⟩ := List.mem_iff_getElem?.mp hother
            exact absurd (hothers (j + 1) other hj a ha hp) (Nat.succ_ne_zero j)
          rw [hrest, List.append_nil]
      | succ i =>
          have hhead : head.filter p = [] := by
            rw [List.filter_eq_nil_iff]
            intro a ha hp
            exact absurd (hothers 0 head rfl a ha hp) (Nat.succ_ne_zero i).symm
          rw [hhead, List.nil_append]
          exact ih hlist fun j other hj a ha hp =>
            Nat.succ.inj (hothers (j + 1) other hj a ha hp)

theorem distance_comm (a b : NodeId) : distance a b = distance b a := by
  apply Subtype.ext
  exact List.zipWith_comm_of_comm UInt8.xor_comm

/-- A search for one node meets nothing outside its bucket. -/
theorem SpaceOk.filter_bucket (hok : SpaceOk nodesPerBucket clock s) (id : NodeId)
    {p : Peer → Bool} (hid : ∀ peer, p peer = true → peer.mPeerId.id = id) :
    ∃ entries, s.buckets[bucketDistance (distance id s.mOwnId)]? = some entries ∧
      entries.filter p = s.peers.filter p := by
  have hlt : bucketDistance (distance id s.mOwnId) < s.buckets.length := by
    rw [hok.length_buckets]
    exact bucketDistance_lt _
  refine ⟨_, List.getElem?_eq_getElem hlt, (filter_flatten (List.getElem?_eq_getElem hlt)
    fun j other hj peer hmem hp => ?_).symm⟩
  rw [distance_comm, ← hid peer hp]
  exact (hok.placed hj hmem).symm

theorem SpaceOk.findNode_eq (hok : SpaceOk nodesPerBucket clock s) (id : NodeId)
    (withFlags : BitVec 32) :
    s.findNode id withFlags = some ((s.peers.filter fun peer =>
      (withFlags = 0 ∨ withFlags &&& peer.mPeerFlags = withFlags) ∧ id = peer.mPeerId.id).map
        Peer.mPeerId) := by
  obtain ⟨entries, hentries, hfilter⟩ := hok.filter_bucket id
    (p := fun peer => (withFlags = 0 ∨ withFlags &&& peer.mPeerFlags = withFlags) ∧
      id = peer.mPeerId.id) fun peer hp => (of_decide_eq_true hp).2.symm
  unfold findNode
  rw [hentries, ← hfilter]
  rfl

theorem SpaceOk.findExactnode_eq (hok : SpaceOk nodesPerBucket clock s) (id : PeerAddr) :
    s.findExactnode id = some (s.peers.find? fun peer => id = peer.mPeerId) := by
  obtain ⟨entries, hentries, hfilter⟩ := hok.filter_bucket id.id
    (p := fun peer => id = peer.mPeerId) fun peer hp => by rw [← of_decide_eq_true hp]
  unfold findExactnode
  rw [hentries, ← List.head?_filter, ← hfilter, List.head?_filter]
  rfl

/-- A peer that is not in the table any more was out of date, or had lower flags than the new one. -/
theorem addPeer_evicts {id : PeerAddr} {peerflags : BitVec 32} {add : Bool}
    (hadd : s.addPeer nodesPerBucket id peerflags ts = some (add, t)) {peer : Peer}
    (hmem : peer ∈ s.peers) (hgone : ∀ peer' ∈ t.peers, ¬ SimilarId peer'.mPeerId peer.mPeerId) :
    ts - peer.mLastRecvTime > maxRecvPeriod ∨ peer.mPeerFlags < peerflags := by
  obtain ⟨entries, entries', hentries, hbucket, rfl⟩ := addPeer_eq_some hadd
  obtain ⟨i, others, hi, hmem⟩ := mem_peers.mp hmem
  have hlt := (List.getElem?_eq_some_iff.mp hentries).1
  by_cases hplace : bucketDistance (distance s.mOwnId id.id) = i
  · rw [← hplace, hentries, Option.some_inj] at hi
    subst hi
    have hgone' : ∀ peer' ∈ entries', ¬ SimilarId peer'.mPeerId peer.mPeerId :=
      fun peer' hpeer' => hgone peer' (mem_peers.mpr ⟨_, entries', List.getElem?_set_self hlt, hpeer'⟩)
    have habsent : peer ∉ entries' := fun hin => hgone' peer hin ⟨rfl, rfl⟩
    rcases addToBucket_cases hbucket with
      ⟨before, known, after, known', rfl, rfl, -, hknown, -⟩ |
      ⟨-, ⟨kept, newPeer, rfl, -, -, -, hevicted⟩ | rfl⟩
    · rw [List.mem_append, List.mem_cons] at hmem
      rw [List.mem_append, List.mem_append, not_or, not_or] at habsent
      rcases hmem with hmem | rfl | hmem
      · exact absurd hmem habsent.1.1
      · exact absurd hknown (hgone' known' (List.mem_append_right _ (List.mem_singleton_self _)))
      · exact absurd hmem habsent.1.2
    · exact hevicted peer hmem fun hkept => habsent (List.mem_append_left _ hkept)
    · exact absurd hmem habsent
  · refine absurd ⟨rfl, rfl⟩ (hgone peer (mem_peers.mpr ⟨i, others, ?_, hmem⟩))
    exact (List.getElem?_set_ne hplace).trans hi

end Space

/-! ### Runs -/

theorem spaceOk_step {r r' : TimedSpace} (op : Int × SpaceOp)
    (hok : Space.SpaceOk nodesPerBucket r.clock r.space) (htime : r.clock ≤ op.1)
    (hstep : r.step nodesPerBucket op = some r') :
    Space.SpaceOk nodesPerBucket r'.clock r'.space := by
  obtain ⟨ts, op⟩ := op
  cases op with
  | addPeer id peerflags =>
      obtain ⟨⟨add, space⟩, hadd, hstep⟩ := Option.bind_eq_some_iff.mp hstep
      cases hstep
      exact hok.addPeer htime hadd
  | flagpeer id flags exFlags =>
      obtain ⟨space, hflag, hstep⟩ := Option.bind_eq_some_iff.mp hstep
      cases hstep
      obtain ⟨hthin, hown⟩ := Space.thinned_flagpeer hflag
      exact (hok.thin hthin hown).later htime
  | scanOutOfDatePeers =>
      cases hstep
      exact (hok.thin (r.space.thinned_scanOutOfDatePeers ts)
        (r.space.ownId_scanOutOfDatePeers ts)).later htime
  | updateAttachedPeers =>
      cases hstep
      exact (hok.thin r.space.thinned_updateAttachedPeers rfl).later htime
  | cleanNodeFlags flags =>
      cases hstep
      exact (hok.thin (r.space.thinned_cleanNodeFlags flags) rfl).later htime
  | setAttachedFlag withflags count =>
      cases hstep
      have hthin : Space.Thinned (r.space.setAttachedFlag withflags count).buckets r.space.buckets :=
        Space.thinned_refl _
      exact (hok.thin hthin rfl).later htime
  | clear =>
      cases hstep
      exact (hok.thin r.space.thinned_clear rfl).later htime

theorem spaceOk_of_reaches {ownId : NodeId} {start : Int} {r : TimedSpace}
    (hreach : Reaches (TimedSpace.step nodesPerBucket) (fun r op => r.clock ≤ op.1)
      ⟨Space.new ownId, start⟩ r) : Space.SpaceOk nodesPerBucket r.clock r.space :=
  hreach.invariant (fun r => Space.SpaceOk nodesPerBucket r.clock r.space)
    (fun _ op _ hok htime hstep => spaceOk_step op hok htime hstep) (Space.spaceOk_new ownId start)

/-- What the node relies on: the queues are kept, only stale or less useful peers make room, and one
bucket answers for the whole table. -/
structure RoutingTable (nodesPerBucket : Nat) (clock : Int) (s : Space) : Prop where
  placed : ∀ (i : Nat) (entries : List Peer), s.buckets[i]? = some entries →
    ∀ peer ∈ entries, bucketDistance (distance s.mOwnId peer.mPeerId.id) = i
  distinct : s.peers.Pairwise fun a b => ¬ SimilarId a.mPeerId b.mPeerId
  length_le : ∀ entries ∈ s.buckets, entries.length ≤ nodesPerBucket
  ordered : ∀ entries ∈ s.buckets, entries.Pairwise fun a b => a.mLastRecvTime ≤ b.mLastRecvTime
  adds : 0 < nodesPerBucket → ∀ id peerflags ts, (s.addPeer nodesPerBucket id peerflags ts).isSome
  evicts : ∀ id peerflags ts add t, clock ≤ ts →
    s.addPeer nodesPerBucket id peerflags ts = some (add, t) →
      ∀ peer ∈ s.peers, (∀ peer' ∈ t.peers, ¬ SimilarId peer'.mPeerId peer.mPeerId) →
        ts - peer.mLastRecvTime > maxRecvPeriod ∨ peer.mPeerFlags < peerflags
  findNode_eq : ∀ id withFlags, s.findNode id withFlags = some ((s.peers.filter fun peer =>
    (withFlags = 0 ∨ withFlags &&& peer.mPeerFlags = withFlags) ∧ id = peer.mPeerId.id).map
      Peer.mPeerId)
  findExactnode_eq : ∀ id, s.findExactnode id = some (s.peers.find? fun peer => id = peer.mPeerId)

theorem routingTable_of_spaceOk {s : Space} (hok : Space.SpaceOk nodesPerBucket clock s) :
    RoutingTable nodesPerBucket clock s where
  placed _ _ hentries _ hmem := hok.placed hentries hmem
  distinct := hok.distinct
  length_le entries hentries := by
    obtain ⟨i, hi⟩ := List.mem_iff_getElem?.mp hentries
    exact length_sightings entries ▸ (hok.bucket i entries hi).length_le
  ordered entries hentries := by
    obtain ⟨i, hi⟩ := List.mem_iff_getElem?.mp hentries
    have hordered := (hok.bucket i entries hi).ordered
    rw [sightings, List.pairwise_map] at hordered
    exact hordered
  adds hroom := Space.addPeer_defined hok hroom
  evicts _ _ _ _ _ _ hadd _ hmem hgone := Space.addPeer_evicts hadd hmem hgone
  findNode_eq := hok.findNode_eq
  findExactnode_eq := hok.findExactnode_eq

theorem routingTable_of_reaches (nodesPerBucket : Nat) (ownId : NodeId) (start : Int)
    (r : TimedSpace)
    (hreach : Reaches (TimedSpace.step nodesPerBucket) (fun r op => r.clock ≤ op.1)
      ⟨Space.new ownId, start⟩ r) : RoutingTable nodesPerBucket r.clock r.space :=
  routingTable_of_spaceOk (spaceOk_of_reaches hreach)

def sampleId (byte : UInt8) : NodeId := ⟨List.replicate keyLen byte, List.length_replicate⟩

theorem routingTable_sample : ∃ r : TimedSpace, r.space.peers.length = 1 ∧
    RoutingTable 10 r.clock r.space := by
  let op : Int × SpaceOp := (100, .addPeer ⟨sampleId 1, 0x7f000001, 6881⟩ statusRecvPong)
  have hstep : ∃ r, TimedSpace.step 10 ⟨Space.new (sampleId 0), 0⟩ op = some r ∧
      r.space.peers.length = 1 := ⟨_, rfl, by decide⟩
  obtain ⟨r, hstep, hlength⟩ := hstep
  exact ⟨r, hlength, routingTable_of_reaches 10 (sampleId 0) 0 r
    (Reaches.tail (.refl _) (show (0 : Int) ≤ 100 by decide) hstep)⟩

end RetroShare.Dht
