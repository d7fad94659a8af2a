import RetroShare.Dht.Proof.QueryEnd

/-!
# Potential proxies

A peer that answers with the target itself is a potential proxy. It is kept in one of two lists, by
whether its flags show the required ones. The test for an exact match asks for bucket 0, and the ids
at distance 0 and at distance 1 are both in that bucket.
-/

namespace RetroShare.Dht.Query

open RetroShare.Transition

variable {q q' : Query} {id : PeerAddr} {mode : BitVec 32} {now : Int} {peer : Peer}

/-! ### The two lists -/

def proxies (q : Query) : List Peer := q.mProxiesUnknown ++ q.mProxiesFlagged

/-- The flags seen of a peer contain all the required ones. -/
def HasFlags (q : Query) (peer : Peer) : Prop :=
  peer.mPeerFlags &&& q.mRequiredPeerFlags = q.mRequiredPeerFlags

def Distinct (peers : List Peer) : Prop :=
  peers.Pairwise fun a b => ¬ SimilarId a.mPeerId b.mPeerId

/-- Every proxy is in the list its flags ask for. -/
def Placed (q : Query) : Prop :=
  (∀ peer ∈ q.mProxiesUnknown, ¬ q.HasFlags peer) ∧ ∀ peer ∈ q.mProxiesFlagged, q.HasFlags peer

/-- Every proxy is one of these sources. -/
def From (srcs : List PeerAddr) (peers : List Peer) : Prop :=
  ∀ peer ∈ peers, ∃ src ∈ srcs, SimilarId src peer.mPeerId

/-- The proxies of a query to which the sources `told` have answered with its target. -/
structure ProxiesOk (q : Query) (told : List PeerAddr) : Prop where
  distinct : Distinct q.proxies
  placed : q.Placed
  fewUnknown : q.mProxiesUnknown.length ≤ maxPotentialProxies
  fewFlagged : q.mProxiesFlagged.length ≤ maxPotentialProxies
  told : From told q.proxies

theorem Distinct.perm {peers peers' : List Peer} (hdistinct : Distinct peers)
    (hperm : peers.Perm peers') : Distinct peers' :=
  (hperm.pairwise_iff fun {_ _} hne hsimilar => hne hsimilar.symm).mp hdistinct

/-- A peer may be replaced by one that is similar to it. -/
theorem Distinct.replace {old new : Peer} {rest : List Peer} (hdistinct : Distinct (old :: rest))
    (hsimilar : SimilarId new.mPeerId old.mPeerId) : Distinct (new :: rest) := by
  obtain ⟨hold, hrest⟩ := List.pairwise_cons.mp hdistinct
  exact List.pairwise_cons.mpr
    ⟨fun other hmem hother => hold other hmem (hsimilar.symm.trans hother), hrest⟩

theorem From.mono {srcs : List PeerAddr} {peers peers' : List Peer} (hfrom : From srcs peers)
    (hsubset : peers' ⊆ peers) : From srcs peers' :=
  fun peer hmem => hfrom peer (hsubset hmem)

/-! ### Pushing and updating -/

theorem proxies_pushProxy (q : Query) (peer : Peer) :
    (q.pushProxy peer).proxies.Perm (peer :: q.proxies) := by
  unfold pushProxy proxies
  split
  · exact List.perm_middle
  · exact List.Perm.refl _

theorem Placed.pushProxy (hplaced : q.Placed) (peer : Peer) : (q.pushProxy peer).Placed := by
  unfold Query.pushProxy
  split
  case isTrue hflags => exact ⟨hplaced.1, List.forall_mem_cons.mpr ⟨hflags, hplaced.2⟩⟩
  case isFalse hflags => exact ⟨List.forall_mem_cons.mpr ⟨hflags, hplaced.1⟩, hplaced.2⟩

theorem updatePort_similar (id : PeerAddr) (peer : Peer) :
    SimilarId (updatePort id peer).mPeerId peer.mPeerId :=
  updateSimilarId_similar peer.mPeerId id

theorem perm_cons_eraseP {p : Peer → Bool} {old : Peer} : ∀ {peers : List Peer},
    peers.find? p = some old → peers.Perm (old :: peers.eraseP p)
  | first :: rest, hfind => by
      cases hp : p first with
      | true =>
          rw [List.find?_cons_of_pos hp] at hfind
          cases hfind
          rw [List.eraseP_cons_of_pos hp]
      | false =>
          rw [List.find?_cons_of_neg (by simp [hp])] at hfind
          rw [List.eraseP_cons_of_neg (by simp [hp])]
          exact ((perm_cons_eraseP hfind).cons first).trans (.swap _ _ _)

/-- The peer that moves was in the list, and is not in the rest. -/
theorem updateProxyList_cases {peers rest : List Peer} {new : Peer}
    (hupdate : updateProxyList id mode now peers = some (new, rest)) :
    ∃ old, peers.Perm (old :: rest) ∧ rest.Sublist peers ∧ SimilarId new.mPeerId old.mPeerId := by
  obtain ⟨old, hfind, hupdate⟩ := Option.bind_eq_some_iff.mp hupdate
  cases hupdate
  refine ⟨old, perm_cons_eraseP hfind, List.eraseP_sublist, ?_⟩
  dsimp only
  split
  · exact updatePort_similar id old
  · exact ⟨rfl, rfl⟩

theorem updateProxyList_eq_none {peers : List Peer} (hnone : updateProxyList id mode now peers = none) :
    ∀ peer ∈ peers, ¬ SimilarId id peer.mPeerId := by
  intro peer hmem hsimilar
  have hfind : peers.find? (fun peer => SimilarId id peer.mPeerId) = none := by
    cases hfind : peers.find? (fun peer => SimilarId id peer.mPeerId) with
    | none => rfl
    | some old => simp [updateProxyList, hfind] at hnone
  exact List.find?_eq_none.mp hfind peer hmem (decide_eq_true hsimilar)

/-- One peer of the two lists is replaced by a similar one, and comes into the list its flags ask
for. -/
theorem updateProxyLists_cases (hupdate : q.updateProxyLists id mode now = some q')
    (hplaced : q.Placed) :
    q'.Placed ∧ ∃ old new rest, q.proxies.Perm (old :: rest) ∧ q'.proxies.Perm (new :: rest) ∧
      SimilarId new.mPeerId old.mPeerId := by
  unfold updateProxyLists at hupdate
  split at hupdate
  case h_1 new rest hlist =>
    cases hupdate
    obtain ⟨old, hperm, hsublist, hsimilar⟩ := updateProxyList_cases hlist
    have hrest : Placed { q with mProxiesUnknown := rest } :=
      ⟨fun peer hmem => hplaced.1 peer (hsublist.subset hmem), hplaced.2⟩
    exact ⟨hrest.pushProxy new, old, new, rest ++ q.mProxiesFlagged,
      hperm.append_right q.mProxiesFlagged, proxies_pushProxy _ new, hsimilar⟩
  case h_2 =>
    obtain ⟨⟨new, rest⟩, hlist, hupdate⟩ := Option.bind_eq_some_iff.mp hupdate
    cases hupdate
    obtain ⟨old, hperm, hsublist, hsimilar⟩ := updateProxyList_cases hlist
    have hrest : Placed { q with mProxiesFlagged := rest } :=
      ⟨hplaced.1, fun peer hmem => hplaced.2 peer (hsublist.subset hmem)⟩
    exact ⟨hrest.pushProxy new, old, new, q.mProxiesUnknown ++ rest,
      (hperm.append_left q.mProxiesUnknown).trans List.perm_middle, proxies_pushProxy _ new, hsimilar⟩

theorem updateProxyLists_eq_none (hnone : q.updateProxyLists id mode now = none) :
    ∀ peer ∈ q.proxies, ¬ SimilarId id peer.mPeerId := by
  unfold updateProxyLists at hnone
  split at hnone
  case h_1 => cases hnone
  case h_2 hunknown =>
    have hflagged : updateProxyList id mode now q.mProxiesFlagged = none := by
      cases hflagged : updateProxyList id mode now q.mProxiesFlagged with
      | none => rfl
      | some answer => simp [hflagged] at hnone
    intro peer hmem
    exact (List.mem_append.mp hmem).elim (updateProxyList_eq_none hunknown peer)
      (updateProxyList_eq_none hflagged peer)

/-! ### What the operations keep -/

/-- The lists before they are trimmed. -/
structure Untrimmed (q : Query) (told : List PeerAddr) : Prop where
  distinct : Distinct q.proxies
  placed : q.Placed
  told : From told q.proxies

variable {told : List PeerAddr}

theorem ProxiesOk.untrimmed (hok : ProxiesOk q told) : Untrimmed q told :=
  ⟨hok.distinct, hok.placed, hok.told⟩

theorem Untrimmed.updateProxyLists (hok : Untrimmed q told)
    (hupdate : q.updateProxyLists id mode now = some q') : Untrimmed q' told := by
  obtain ⟨hplaced, old, new, rest, hbefore, hafter, hsimilar⟩ :=
    updateProxyLists_cases hupdate hok.placed
  refine ⟨((hok.distinct.perm hbefore).replace hsimilar).perm hafter.symm, hplaced, ?_⟩
  intro peer hmem
  have hold := hok.told.mono hbefore.symm.subset
  obtain rfl | hrest := List.mem_cons.mp (hafter.subset hmem)
  · obtain ⟨src, hsrc, htold⟩ := hold old List.mem_cons_self
    exact ⟨src, hsrc, htold.trans hsimilar.symm⟩
  · exact hold peer (List.mem_cons_of_mem _ hrest)

theorem Untrimmed.pushProxy (hok : Untrimmed q told)
    (hfresh : ∀ other ∈ q.proxies, ¬ SimilarId peer.mPeerId other.mPeerId)
    (htold : ∃ src ∈ told, SimilarId src peer.mPeerId) : Untrimmed (q.pushProxy peer) told := by
  have hperm := proxies_pushProxy q peer
  refine ⟨Distinct.perm (List.pairwise_cons.mpr ⟨hfresh, hok.distinct⟩) hperm.symm,
    hok.placed.pushProxy peer, From.mono ?_ hperm.subset⟩
  exact List.forall_mem_cons.mpr ⟨htold, hok.told⟩

theorem Untrimmed.trimProxies (hok : Untrimmed q told) : ProxiesOk q.trimProxies told := by
  have hsublist : q.trimProxies.proxies.Sublist q.proxies :=
    (List.take_sublist _ _).append (List.take_sublist _ _)
  exact {
    distinct := hok.distinct.sublist hsublist
    placed := ⟨fun peer hmem => hok.placed.1 peer (List.mem_of_mem_take hmem),
      fun peer hmem => hok.placed.2 peer (List.mem_of_mem_take hmem)⟩
    fewUnknown := List.length_take_le _ _
    fewFlagged := List.length_take_le _ _
    told := hok.told.mono hsublist.subset }

theorem ProxiesOk.updateProxy (hok : ProxiesOk q told) : ProxiesOk (q.updateProxy id mode now) told := by
  unfold Query.updateProxy
  cases hupdate : q.updateProxyLists id mode now with
  | none => exact hok.untrimmed.trimProxies
  | some q' => exact (hok.untrimmed.updateProxyLists hupdate).trimProxies

/-- The source of an answer is entered if the answer is in bucket 0. -/
theorem ProxiesOk.addProxy (hok : ProxiesOk q told) {src : Option PeerAddr}
    (htold : ∀ peer, src = some peer → bucketDistance (distance q.mId id.id) = 0 →
      ∃ other ∈ told, SimilarId other peer) : ProxiesOk (q.addProxy id src mode now) told := by
  unfold Query.addProxy
  split
  case h_1 => exact hok
  case h_2 src =>
    split
    case isTrue => exact hok
    case isFalse hbucket =>
      cases hupdate : q.updateProxyLists src mode now with
      | none =>
          exact (hok.untrimmed.pushProxy (updateProxyLists_eq_none hupdate)
            (htold src rfl (not_not.mp hbucket))).trimProxies
      | some q' => exact (hok.untrimmed.updateProxyLists hupdate).trimProxies

theorem ProxiesOk.mono {told' : List PeerAddr} (hok : ProxiesOk q told) (hsubset : told ⊆ told') :
    ProxiesOk q told' :=
  { hok with told := fun peer hmem =>
      let ⟨src, hsrc, hsimilar⟩ := hok.told peer hmem
      ⟨src, hsubset hsrc, hsimilar⟩ }

/-- The lists and the required flags are the same. -/
structure SameProxies (q q' : Query) : Prop where
  unknown : q'.mProxiesUnknown = q.mProxiesUnknown
  flagged : q'.mProxiesFlagged = q.mProxiesFlagged
  required : q'.mRequiredPeerFlags = q.mRequiredPeerFlags

theorem ProxiesOk.same (hok : ProxiesOk q told) (hsame : SameProxies q q') : ProxiesOk q' told := by
  have hproxies : q'.proxies = q.proxies := by rw [proxies, hsame.unknown, hsame.flagged, proxies]
  have hplaced := hok.placed
  refine ⟨hproxies ▸ hok.distinct, ?_, hsame.unknown ▸ hok.fewUnknown,
    hsame.flagged ▸ hok.fewFlagged, hproxies ▸ hok.told⟩
  simpa only [Placed, HasFlags, hsame.unknown, hsame.flagged, hsame.required] using hplaced

theorem sameProxies_finish (hfinish : q.finish now = some q') : SameProxies q q' := by
  obtain ⟨searchTime, potential, ts, hframe, -⟩ := cleaned_frame q now
  unfold Query.finish at hfinish
  dsimp only at hfinish
  rw [hframe] at hfinish
  split at hfinish
  · cases hfinish
    exact ⟨rfl, rfl, rfl⟩
  · split at hfinish
    · cases hfinish
      exact ⟨rfl, rfl, rfl⟩
    · obtain ⟨peer, -, hfinish⟩ := Option.bind_eq_some_iff.mp hfinish
      cases hfinish
      exact ⟨rfl, rfl, rfl⟩

theorem sameProxies_nextQuery {random : NodeId} {asked : Option (PeerAddr × NodeId)}
    (hnext : q.nextQuery random now = some (asked, q')) : SameProxies q q' := by
  obtain ⟨period, hframe⟩ := updateRetryPeriod_frame q now
  unfold Query.nextQuery at hnext
  split at hnext
  · cases hnext
    exact ⟨rfl, rfl, rfl⟩
  · rw [hframe] at hnext
    dsimp only at hnext
    split at hnext
    · cases hnext
      exact ⟨rfl, rfl, rfl⟩
    · split at hnext
      · cases hnext
        exact ⟨rfl, rfl, rfl⟩
      · split at hnext
        · cases hnext
          exact ⟨rfl, rfl, rfl⟩
        · obtain ⟨r, hfinish, hnext⟩ := Option.bind_eq_some_iff.mp hnext
          cases hnext
          have hsame := sameProxies_finish hfinish
          exact ⟨hsame.unknown, hsame.flagged, hsame.required⟩

/-! ### Runs -/

/-- The source of an answer that is the target itself. -/
def tells (q : Query) : Int × Op → List PeerAddr
  | (_, .addPotentialPeer id (some src) _) => if id.id = q.mId then [src] else []
  | _ => []

/-- A query, and all who have told it of its target so far. -/
def stepTold (state : Query × List PeerAddr) (event : Int × Op) : Option (Query × List PeerAddr) :=
  (state.1.step event).map fun q => (q, state.1.tells event ++ state.2)

/-- An answer in bucket 0 is the target itself, or comes from one who has told of the target before. -/
def Exact (state : Query × List PeerAddr) : Int × Op → Prop
  | (_, .addPotentialPeer id (some src) _) =>
      bucketDistance (distance state.1.mId id.id) = 0 →
        id.id = state.1.mId ∨ ∃ other ∈ state.2, SimilarId other src
  | _ => True

theorem ProxiesOk.step {event : Int × Op} (hok : ProxiesOk q told) (hexact : Exact (q, told) event)
    (hstep : q.step event = some q') : ProxiesOk q' (q.tells event ++ told) := by
  obtain ⟨now, op⟩ := event
  have hmore : ProxiesOk q (q.tells (now, op) ++ told) := hok.mono (List.subset_append_right _ _)
  cases op with
  | addPeer id mode =>
      obtain ⟨closest, hframe⟩ := addClosestPeer_frame q id mode now
      obtain ⟨⟨ping, u⟩, hupdate, rfl⟩ :=
        Option.map_eq_some_iff.mp ((addPeer_eq_map q id mode now).symm.trans hstep)
      rw [hframe] at hupdate
      obtain ⟨potential, rfl⟩ := updatePotentialPeer_frame hupdate
      have hupdated : ProxiesOk { q with mClosest := closest, mPotentialPeers := potential }
          (q.tells (now, .addPeer id mode) ++ told) := hmore.same ⟨rfl, rfl, rfl⟩
      exact hupdated.updateProxy
  | addPotentialPeer id src srcmode =>
      obtain ⟨⟨ping, u⟩, hadd, hstep⟩ := Option.bind_eq_some_iff.mp hstep
      cases hstep
      have hproxy : ProxiesOk (q.addProxy id src srcmode now)
          (q.tells (now, .addPotentialPeer id src srcmode) ++ told) := by
        refine hmore.addProxy fun peer hsrc hbucket => ?_
        subst hsrc
        obtain htarget | ⟨other, hother, hsimilar⟩ := hexact hbucket
        · exact ⟨peer, by simp [tells, htarget], rfl, rfl⟩
        · exact ⟨other, List.mem_append_right _ hother, hsimilar⟩
      unfold addPotentialPeer at hadd
      dsimp only at hadd
      split at hadd
      · obtain ⟨potential, rfl⟩ := updatePotentialPeer_frame hadd
        exact hproxy.same ⟨rfl, rfl, rfl⟩
      · cases hadd
        exact hproxy
  | nextQuery random =>
      obtain ⟨⟨asked, u⟩, hnext, hstep⟩ := Option.bind_eq_some_iff.mp hstep
      cases hstep
      exact hmore.same (sameProxies_nextQuery hnext)

theorem proxiesOk_new (id : NodeId) (startList : List PeerAddr) (queryFlags : BitVec 32)
    (numQueryNodes : Nat) (start : Int) :
    ProxiesOk (new id startList queryFlags numQueryNodes start) [] where
  distinct := List.Pairwise.nil
  placed := ⟨fun _ hmem => absurd hmem List.not_mem_nil, fun _ hmem => absurd hmem List.not_mem_nil⟩
  fewUnknown := Nat.zero_le _
  fewFlagged := Nat.zero_le _
  told := fun _ hmem => absurd hmem List.not_mem_nil

/-- **Potential proxies.** As long as the answers in bucket 0 are the target itself, or come from
sources that have told of it before, the proxies are distinct, each in the list its flags ask for, at
most ten in a list, and all have told of the target. -/
theorem proxiesOk_of_reaches (id : NodeId) (startList : List PeerAddr) (queryFlags : BitVec 32)
    (numQueryNodes : Nat) (start : Int) (q : Query) (told : List PeerAddr)
    (hreach : Reaches stepTold Exact (new id startList queryFlags numQueryNodes start, [])
      (q, told)) : ProxiesOk q told := by
  refine hreach.invariant (fun state => ProxiesOk state.1 state.2) ?_
    (proxiesOk_new id startList queryFlags numQueryNodes start)
  rintro ⟨q, told⟩ event ⟨q', told'⟩ hok hexact hstep
  obtain ⟨u, hu, heq⟩ := Option.map_eq_some_iff.mp hstep
  cases heq
  exact hok.step hexact hu

/-- An answer with the target enters its source. -/
theorem proxiesOk_sample : ∃ q, Reaches stepTold Exact (startedQuery, []) (q, [samplePeer 1]) ∧
    q.mProxiesUnknown.length = 1 ∧ ProxiesOk q [samplePeer 1] := by
  have hstep : ∃ q, stepTold (startedQuery, []) (1, .addPotentialPeer (samplePeer 0)
      (some (samplePeer 1)) 0) = some (q, [samplePeer 1]) ∧ q.mProxiesUnknown.length = 1 :=
    ⟨_, rfl, rfl⟩
  obtain ⟨q, hstep, hlength⟩ := hstep
  have hreach : Reaches stepTold Exact (startedQuery, []) (q, [samplePeer 1]) :=
    (Reaches.refl _).next (1, .addPotentialPeer (samplePeer 0) (some (samplePeer 1)) 0)
      (fun _ => .inl rfl) hstep
  exact ⟨q, hreach, hlength, proxiesOk_of_reaches (sampleNode 0) [samplePeer 1] 0 10 0 q _ hreach⟩

/-- The id that differs from the target in its lowest bit. -/
def neighbour : PeerAddr :=
  ⟨⟨List.replicate (keyLen - 1) 0 ++ [1], by decide⟩, 0x7f000002, 6881⟩

/-- Nobody has told of the target, and the source of its neighbour is a potential proxy. -/
theorem proxiesOk_counterexample :
    ¬ ∀ (id : NodeId) (startList : List PeerAddr) (queryFlags : BitVec 32) (numQueryNodes : Nat)
        (start : Int) (q : Query) (told : List PeerAddr),
      Reaches stepTold (fun _ _ => True) (new id startList queryFlags numQueryNodes start, [])
        (q, told) → ProxiesOk q told := by
  intro hclaim
  have hstep : ∃ q, stepTold (startedQuery, []) (1, .addPotentialPeer neighbour
      (some (samplePeer 1)) 0) = some (q, []) ∧ q.mProxiesUnknown ≠ [] := ⟨_, rfl, by decide⟩
  obtain ⟨q, hstep, hentered⟩ := hstep
  have hok := hclaim _ _ _ _ _ q [] ((Reaches.refl _).tail trivial hstep)
  obtain ⟨peer, hpeer⟩ := List.exists_mem_of_ne_nil _ hentered
  obtain ⟨src, hsrc, -⟩ := hok.told peer (List.mem_append_left _ hpeer)
  cases hsrc

end RetroShare.Dht.Query
