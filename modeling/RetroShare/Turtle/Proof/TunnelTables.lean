import RetroShare.Turtle.Proof.TunnelRoutes

/-!
# What a router keeps

Everything in the tables of a router, in what it sends and in what it calls goes back to something that
happened earlier in the network: a request that came along, a call to a service, data that was given.
This is kept in a ledger that only grows, and each function of the router keeps to it.
-/

namespace RetroShare.Turtle.Tunnels

/-- What happened in the network: which way each request came to which router (the routers are named from
the latest to the source), what was given to be sent, and which services were called. -/
structure Ledger where
  trail : PeerId → Nat → Option (FileHash × List PeerId)
  given : List (PeerId × PeerId × List UInt8)
  calls : List (PeerId × ServiceCall)

namespace Ledger

structure Extends (k k' : Ledger) : Prop where
  trail : ∀ {p id way}, k.trail p id = some way → k'.trail p id = some way
  given : ∀ {entry}, entry ∈ k.given → entry ∈ k'.given
  calls : ∀ {entry}, entry ∈ k.calls → entry ∈ k'.calls

/-- The service was told of a virtual peer. -/
def Told (k : Ledger) (p : PeerId) (service : Option ServiceId) (hash : FileHash) (vpid : PeerId)
    (direction : Direction) : Prop :=
  (p, .addVirtualPeer service hash vpid direction) ∈ k.calls

/-- With what a router calls on the way. -/
def including (k : Ledger) (p : PeerId) (calls : List ServiceCall) : Ledger :=
  { k with calls := k.calls ++ calls.map (p, ·) }

end Ledger

variable {net : Setting} {k k' : Ledger} {p q : PeerId} {r : TurtleRouter} {tid : Nat} {hash : FileHash}
  {call : ServiceCall}

theorem Ledger.Extends.refl : k.Extends k := ⟨id, id, id⟩

theorem Ledger.Extends.trans {k'' : Ledger} (h : k.Extends k') (h' : k'.Extends k'') : k.Extends k'' :=
  ⟨fun hway => h'.trail (h.trail hway), fun hmem => h'.given (h.given hmem),
    fun hmem => h'.calls (h.calls hmem)⟩

theorem Ledger.extends_including (k : Ledger) (p : PeerId) (calls : List ServiceCall) :
    k.Extends (k.including p calls) :=
  ⟨id, id, fun hmem => List.mem_append_left _ hmem⟩

theorem Ledger.including_append (calls calls' : List ServiceCall) :
    (k.including p calls).Extends (k.including p (calls ++ calls')) := by
  refine ⟨id, id, fun {entry} hmem => ?_⟩
  change entry ∈ k.calls ++ (calls ++ calls').map (p, ·)
  rw [List.map_append, ← List.append_assoc]
  exact List.mem_append_left _ hmem

/-- The trails are routes that lead back to a source. -/
structure TrailsLead (net : Setting) (k : Ledger) : Prop where
  notZero : ∀ {p id hash path}, k.trail p id = some (hash, path) → id ≠ 0
  asked : ∀ {p id hash path}, k.trail p id = some (hash, path) → hash ∈ net.hashes
  nodup : ∀ {p id hash path}, k.trail p id = some (hash, path) → (p :: path).Nodup
  peers : ∀ {p id hash path}, k.trail p id = some (hash, path) → ∀ q ∈ p :: path, q ∈ net.peers
  back : ∀ {p id hash q path}, k.trail p id = some (hash, q :: path) →
    k.trail q id = some (hash, path)

/-- What a call to a service goes back to. -/
def CallHolds (net : Setting) (k : Ledger) (p : PeerId) : ServiceCall → Prop
  | .addVirtualPeer service hash vpid direction =>
      service.isSome ∧ ∃ route tid, net.IsTunnel hash route tid ∧ vpid = virtualPeerId tid ∧
        match direction with
        | .client => route.head? = some p
        | .server => route.getLast? = some p
  | .removeVirtualPeer service hash vpid => ∃ direction, k.Told p service hash vpid direction
  | .receiveTurtleData service data hash vpid direction =>
      k.Told p service hash vpid direction.opposite ∧
        ∃ q service', q ≠ p ∧ (q, vpid, data) ∈ k.given ∧ k.Told q service' hash vpid direction

/-- Data on its way from the end that `direction` tells. -/
def Travels (net : Setting) (k : Ledger) (source target : PeerId) (item : GenericTunnelItem)
    (direction : Direction) : Prop :=
  ∃ hash before after,
    net.IsTunnel hash
      (before ++ (match direction with
        | .client => [source, target]
        | .server => [target, source]) ++ after) item.tunnelId ∧
    ∃ q service, (match direction with
        | .client => (before ++ [source]).head? = some q
        | .server => (source :: after).getLast? = some q) ∧
      (q, virtualPeerId item.tunnelId, item.data) ∈ k.given ∧
      k.Told q service hash (virtualPeerId item.tunnelId) direction

/-- What an item between two routers goes back to. -/
def ItemHolds (net : Setting) (k : Ledger) (source target : PeerId) : TurtleItem → Prop
  | .openTunnel item => target ∈ net.peers ∧ ∃ path,
      k.trail source item.requestId = some (item.fileHash, path) ∧
      item.partialTunnelId = net.partialTunnelId item.fileHash source path
  | .tunnelOk item => ∃ hash path before, k.trail target item.requestId = some (hash, path) ∧
      net.IsTunnel hash (before ++ source :: target :: path) item.tunnelId
  | .generic item => ∃ direction, Travels net k source target item direction

theorem CallHolds.mono (hextends : k.Extends k') (hholds : CallHolds net k p call) :
    CallHolds net k' p call := by
  cases call with
  | addVirtualPeer service hash vpid direction => exact hholds
  | removeVirtualPeer service hash vpid =>
      obtain ⟨direction, htold⟩ := hholds
      exact ⟨direction, hextends.calls htold⟩
  | receiveTurtleData service data hash vpid direction =>
      obtain ⟨htold, q, service', hne, hgiven, htold'⟩ := hholds
      exact ⟨hextends.calls htold, q, service', hne, hextends.given hgiven, hextends.calls htold'⟩

theorem ItemHolds.mono (hextends : k.Extends k') {item : TurtleItem}
    (hholds : ItemHolds net k p q item) : ItemHolds net k' p q item := by
  cases item with
  | openTunnel item =>
      obtain ⟨hpeer, path, htrail, hpartial⟩ := hholds
      exact ⟨hpeer, path, hextends.trail htrail, hpartial⟩
  | tunnelOk item =>
      obtain ⟨hash, path, before, htrail, htunnel⟩ := hholds
      exact ⟨hash, path, before, hextends.trail htrail, htunnel⟩
  | generic item =>
      obtain ⟨direction, hash, before, after, htunnel, q, service, hend, hgiven, htold⟩ := hholds
      exact ⟨direction, hash, before, after, htunnel, q, service, hend, hextends.given hgiven,
        hextends.calls htold⟩

/-! ### The tables of one router -/

/-- The tables of `p`, over a ledger that has what the router has called. -/
structure Tables (net : Setting) (k : Ledger) (p : PeerId) (r : TurtleRouter) : Prop where
  ownId : r.ownId = p
  randomBias : r.randomBias = net.randomBias p
  requests : ∀ {id : Nat} {info}, r.tunnelRequestsOrigins[id]? = some info →
    ∃ hash path, k.trail p id = some (hash, path) ∧ info.origin = path.headD p
  placed : ∀ {tid : Nat} {tunnel}, r.localTunnels[tid]? = some tunnel → Placed net p tid tunnel
  starts : ∀ {tid : Nat} {tunnel}, r.localTunnels[tid]? = some tunnel → tunnel.localSrc = p →
    tunnel.hash ≠ nullFileHash → tunnel.vpid = virtualPeerId tid ∧
      ∃ info, r.incomingFileHashes[tunnel.hash]? = some info ∧ tid ∈ info.tunnels ∧
        k.Told p info.service tunnel.hash tunnel.vpid .server
  ends : ∀ {tid : Nat} {tunnel}, r.localTunnels[tid]? = some tunnel → tunnel.localDst = p →
    tunnel.vpid = virtualPeerId tid ∧ ∃ service, r.outgoingTunnelClientServices[tid]? = some service ∧
      k.Told p (some service) tunnel.hash tunnel.vpid .client
  hashes : ∀ {hash : FileHash} {info}, r.incomingFileHashes[hash]? = some info →
    hash ∈ net.hashes ∧ info.service.isSome ∧
      (info.lastRequest ≠ 0 → k.trail p info.lastRequest = some (hash, []))
  virtualPeers : ∀ {vpid : PeerId} {tid}, r.virtualPeers[vpid]? = some tid →
    ∃ tunnel, r.localTunnels[tid]? = some tunnel ∧ tunnel.vpid = vpid ∧
      ((tunnel.localSrc = p ∧ tunnel.hash ≠ nullFileHash) ∨ tunnel.localDst = p)

/-- What a call of the router leaves. -/
structure Router (net : Setting) (k : Ledger) (p : PeerId) (r : TurtleRouter) : Prop where
  tables : Tables net (k.including p r.calls) p r
  sent : ∀ sent ∈ r.sent, ItemHolds net (k.including p r.calls) p sent.1 sent.2
  calls : ∀ call ∈ r.calls, CallHolds net (k.including p r.calls) p call

theorem Tables.mono (hextends : k.Extends k') (htables : Tables net k p r) : Tables net k' p r :=
  { htables with
    requests := fun hinfo => by
      obtain ⟨hash, path, htrail, horigin⟩ := htables.requests hinfo
      exact ⟨hash, path, hextends.trail htrail, horigin⟩
    starts := fun htunnel hsrc hhash => by
      obtain ⟨hvpid, info, hinfo, hmem, htold⟩ := htables.starts htunnel hsrc hhash
      exact ⟨hvpid, info, hinfo, hmem, hextends.calls htold⟩
    ends := fun htunnel hdst => by
      obtain ⟨hvpid, service, hservice, htold⟩ := htables.ends htunnel hdst
      exact ⟨hvpid, service, hservice, hextends.calls htold⟩
    hashes := fun hinfo => by
      obtain ⟨hmem, hservice, hlast⟩ := htables.hashes hinfo
      exact ⟨hmem, hservice, fun hne => hextends.trail (hlast hne)⟩ }

/-- A table that does not change speaks of the same tunnels. -/
theorem Router.of_same (hrouter : Router net k p r) {r' : TurtleRouter}
    (htables : Tables net (k.including p r.calls) p r') (hsent : r'.sent = r.sent)
    (hcalls : r'.calls = r.calls) : Router net k p r' := by
  refine ⟨?_, ?_, ?_⟩
  · rw [hcalls]
    exact htables
  · rw [hcalls, hsent]
    exact hrouter.sent
  · rw [hcalls]
    exact hrouter.calls

theorem Router.sendItem (hrouter : Router net k p r) {item : TurtleItem}
    (hitem : ItemHolds net (k.including p r.calls) p q item) : Router net k p (r.sendItem q item) := by
  refine ⟨?_, fun sent hsent => ?_, hrouter.calls⟩
  · exact { hrouter.tables with }
  · rcases List.mem_append.mp hsent with hold | hnew
    · exact hrouter.sent sent hold
    · rw [List.mem_singleton.mp hnew]
      exact hitem

/-- What a call to a service leaves, with the tables that were changed for it. -/
theorem Router.of_called (hrouter : Router net k p r) {r' : TurtleRouter}
    (htables : Tables net (k.including p (r.calls ++ [call])) p r') (hsent : r'.sent = r.sent)
    (hcalls : r'.calls = r.calls ++ [call])
    (hcall : CallHolds net (k.including p (r.calls ++ [call])) p call) : Router net k p r' := by
  have hmore := k.including_append (p := p) r.calls [call]
  refine ⟨?_, ?_, ?_⟩
  · rw [hcalls]
    exact htables
  · rw [hcalls, hsent]
    exact fun sent hmem => (hrouter.sent sent hmem).mono hmore
  · rw [hcalls]
    intro call' hmem
    rcases List.mem_append.mp hmem with hold | hnew
    · exact (hrouter.calls call' hold).mono hmore
    · rw [List.mem_singleton.mp hnew]
      exact hcall

theorem Router.callService (hrouter : Router net k p r)
    (hcall : CallHolds net (k.including p (r.calls ++ [call])) p call) :
    Router net k p (r.callService call) :=
  hrouter.of_called { hrouter.tables.mono (k.including_append r.calls [call]) with } rfl rfl hcall

/-! ### Closing -/

theorem lookup_of_erase {K V : Type} [LinearOrder K] {m : OrderedMap K V} {k a : K} {v : V}
    (hlookup : (m.erase k)[a]? = some v) : m[a]? = some v ∧ a ≠ k := by
  rw [OrderedMap.lookup_erase] at hlookup
  split at hlookup
  · cases hlookup
  · next hne => exact ⟨hlookup, Ne.symm hne⟩

theorem lookup_of_insert {K V : Type} [LinearOrder K] {m : OrderedMap K V} {k a : K} {v w : V}
    (hlookup : (m.insert k v)[a]? = some w) : (a = k ∧ w = v) ∨ (a ≠ k ∧ m[a]? = some w) := by
  rw [OrderedMap.lookup_insert] at hlookup
  split at hlookup
  · next heq => exact Or.inl ⟨heq.symm, (Option.some.inj hlookup).symm⟩
  · next hne => exact Or.inr ⟨Ne.symm hne, hlookup⟩

theorem mem_removeTunnelId (tid tid' : Nat) :
    ∀ (n : Nat) (tunnels : List Nat), tunnels.length ≤ n →
      (tid' ∈ TurtleRouter.removeTunnelId tid n tunnels ↔ tid' ∈ tunnels ∧ tid' ≠ tid) := by
  intro n
  induction n with
  | zero =>
      intro tunnels hlength
      rw [List.length_eq_zero_iff.mp (Nat.le_zero.mp hlength)]
      simp [TurtleRouter.removeTunnelId]
  | succ n ih =>
      intro tunnels hlength
      cases tunnels with
      | nil => simp [TurtleRouter.removeTunnelId]
      | cons first rest =>
          rw [List.length_cons, Nat.succ_le_succ_iff] at hlength
          rw [TurtleRouter.removeTunnelId]
          by_cases hfirst : first = tid
          · rw [if_pos hfirst]
            cases rest using List.reverseRecOn with
            | nil => simp [hfirst]
            | append_singleton rest last _ =>
                rw [List.getLast?_concat, List.dropLast_concat]
                dsimp only
                rw [ih _ (by simpa using hlength), hfirst]
                simp only [List.mem_cons, List.mem_append, List.not_mem_nil, or_false]
                tauto
          · rw [if_neg hfirst, List.mem_cons, ih rest hlength, List.mem_cons]
            constructor
            · rintro (rfl | ⟨hmem, hne⟩)
              · exact ⟨Or.inl rfl, hfirst⟩
              · exact ⟨Or.inr hmem, hne⟩
            · rintro ⟨rfl | hmem, hne⟩
              · exact Or.inl rfl
              · exact Or.inr ⟨hmem, hne⟩

/-- Nothing comes in, and the hashes keep what they are monitored for. -/
structure Shrinks (r r' : TurtleRouter) : Prop where
  ownId : r'.ownId = r.ownId
  randomBias : r'.randomBias = r.randomBias
  requests : r'.tunnelRequestsOrigins = r.tunnelRequestsOrigins
  sent : r'.sent = r.sent
  tunnels : ∀ {tid : Nat} {tunnel}, r'.localTunnels[tid]? = some tunnel → r.localTunnels[tid]? = some tunnel
  hashes : ∀ {hash : FileHash} {info'}, r'.incomingFileHashes[hash]? = some info' →
    ∃ info, r.incomingFileHashes[hash]? = some info ∧ info'.service = info.service ∧
      info'.lastRequest = info.lastRequest ∧ ∀ tid ∈ info'.tunnels, tid ∈ info.tunnels

theorem Shrinks.refl : Shrinks r r :=
  ⟨rfl, rfl, rfl, rfl, id, fun hinfo => ⟨_, hinfo, rfl, rfl, fun _ => id⟩⟩

theorem Shrinks.trans {r' r'' : TurtleRouter} (h : Shrinks r r') (h' : Shrinks r' r'') :
    Shrinks r r'' := by
  refine ⟨h'.ownId.trans h.ownId, h'.randomBias.trans h.randomBias, h'.requests.trans h.requests,
    h'.sent.trans h.sent, fun htunnel => h.tunnels (h'.tunnels htunnel), fun hinfo => ?_⟩
  obtain ⟨info', hinfo', hservice', hlast', hmem'⟩ := h'.hashes hinfo
  obtain ⟨info, hinfo, hservice, hlast, hmem⟩ := h.hashes hinfo'
  exact ⟨info, hinfo, hservice'.trans hservice, hlast'.trans hlast,
    fun tid htid => hmem tid (hmem' tid htid)⟩

/-- One tunnel is gone, and what belonged to it. -/
structure Closes (tid : Nat) (r r' : TurtleRouter) : Prop extends Shrinks r r' where
  gone : r'.localTunnels[tid]? = none
  others : ∀ {tid'}, tid' ≠ tid → r'.localTunnels[tid']? = r.localTunnels[tid']?
  services : ∀ {tid'}, tid' ≠ tid →
    r'.outgoingTunnelClientServices[tid']? = r.outgoingTunnelClientServices[tid']?
  monitored : ∀ {hash : FileHash} {info}, r.incomingFileHashes[hash]? = some info →
    ∃ info', r'.incomingFileHashes[hash]? = some info' ∧ info'.service = info.service ∧
      ∀ tid' ∈ info.tunnels, tid' ≠ tid → tid' ∈ info'.tunnels
  virtualPeers : ∀ {vpid : PeerId} {tid'}, r'.virtualPeers[vpid]? = some tid' →
    r.virtualPeers[vpid]? = some tid' ∧ tid' ≠ tid

theorem Tables.close (htables : Tables net k p r) {r' : TurtleRouter} (hcloses : Closes tid r r') :
    Tables net k p r' where
  ownId := hcloses.ownId.trans htables.ownId
  randomBias := hcloses.randomBias.trans htables.randomBias
  requests := fun hinfo => htables.requests (hcloses.requests ▸ hinfo)
  placed := fun htunnel => htables.placed (hcloses.tunnels htunnel)
  starts := by
    intro tid' tunnel htunnel hsrc hhash
    have hne : tid' ≠ tid := fun heq => by
      rw [heq, hcloses.gone] at htunnel
      cases htunnel
    obtain ⟨hvpid, info, hinfo, hmem, htold⟩ := htables.starts (hcloses.tunnels htunnel) hsrc hhash
    obtain ⟨info', hinfo', hservice, hkept⟩ := hcloses.monitored hinfo
    exact ⟨hvpid, info', hinfo', hkept tid' hmem hne, hservice ▸ htold⟩
  ends := by
    intro tid' tunnel htunnel hdst
    have hne : tid' ≠ tid := fun heq => by
      rw [heq, hcloses.gone] at htunnel
      cases htunnel
    obtain ⟨hvpid, service, hservice, htold⟩ := htables.ends (hcloses.tunnels htunnel) hdst
    exact ⟨hvpid, service, (hcloses.services hne).trans hservice, htold⟩
  hashes := by
    intro hash info' hinfo'
    obtain ⟨info, hinfo, hservice, hlast, -⟩ := hcloses.hashes hinfo'
    rw [hservice, hlast]
    exact htables.hashes hinfo
  virtualPeers := by
    intro vpid tid' hvpid
    obtain ⟨hold, hne⟩ := hcloses.virtualPeers hvpid
    obtain ⟨tunnel, htunnel, hrest⟩ := htables.virtualPeers hold
    exact ⟨tunnel, (hcloses.others hne).trans htunnel, hrest⟩

/-- The virtual peers of other tunnels stay. -/
theorem Tables.virtualPeer_ne (htables : Tables net k p r) {tunnel : TurtleTunnel} {vpid : PeerId}
    {tid' : Nat} (htunnel : r.localTunnels[tid]? = some tunnel) (hne : vpid ≠ tunnel.vpid)
    (hvpid : r.virtualPeers[vpid]? = some tid') : tid' ≠ tid := by
  rintro rfl
  obtain ⟨tunnel', htunnel', heq, -⟩ := htables.virtualPeers hvpid
  rw [htunnel] at htunnel'
  exact hne (heq.symm.trans (congrArg TurtleTunnel.vpid (Option.some.inj htunnel').symm))

theorem closes_start (htables : Tables net k p r) {tunnel : TurtleTunnel}
    (htunnel : r.localTunnels[tid]? = some tunnel) :
    Closes tid r { r.closeStart tid tunnel with localTunnels := r.localTunnels.erase tid } := by
  have hvirtual : ∀ {vpid : PeerId} {tid' : Nat},
      (r.virtualPeers.erase tunnel.vpid)[vpid]? = some tid' →
        r.virtualPeers[vpid]? = some tid' ∧ tid' ≠ tid := by
    intro vpid tid' hvpid
    obtain ⟨hold, hne⟩ := lookup_of_erase hvpid
    exact ⟨hold, htables.virtualPeer_ne htunnel hne hold⟩
  have hgone : (r.localTunnels.erase tid)[tid]? = none := by
    rw [OrderedMap.lookup_erase, if_pos rfl]
  unfold TurtleRouter.closeStart
  dsimp only
  cases hlookup : r.incomingFileHashes[tunnel.hash]? with
  | none =>
      exact {
        ownId := rfl
        randomBias := rfl
        requests := rfl
        sent := rfl
        tunnels := fun htunnel => (lookup_of_erase htunnel).1
        hashes := fun hinfo => ⟨_, hinfo, rfl, rfl, fun _ => id⟩
        gone := hgone
        others := fun hne => OrderedMap.lookup_erase_ne _ hne.symm
        services := fun _ => rfl
        monitored := fun hinfo => ⟨_, hinfo, rfl, fun _ hmem _ => hmem⟩
        virtualPeers := hvirtual }
  | some info =>
      have hremoved := fun tid' => mem_removeTunnelId tid tid' _ info.tunnels le_rfl
      refine {
        ownId := rfl
        randomBias := rfl
        requests := rfl
        sent := rfl
        tunnels := fun htunnel => (lookup_of_erase htunnel).1
        hashes := fun {hash info'} hinfo' => ?_
        gone := hgone
        others := fun hne => OrderedMap.lookup_erase_ne _ hne.symm
        services := fun _ => rfl
        monitored := fun {hash info'} hinfo => ?_
        virtualPeers := hvirtual }
      · change (r.incomingFileHashes.insert tunnel.hash _)[hash]? = some info' at hinfo'
        rcases lookup_of_insert hinfo' with ⟨rfl, rfl⟩ | ⟨-, hinfo'⟩
        · exact ⟨info, hlookup, rfl, rfl, fun tid' hmem => ((hremoved tid').mp hmem).1⟩
        · exact ⟨info', hinfo', rfl, rfl, fun _ => id⟩
      · change ∃ info'', (r.incomingFileHashes.insert tunnel.hash _)[hash]? = some info'' ∧ _
        rw [OrderedMap.lookup_insert]
        split
        · next heq =>
            rw [← heq, hlookup] at hinfo
            obtain rfl := Option.some.inj hinfo
            exact ⟨_, rfl, rfl, fun tid' hmem hne => (hremoved tid').mpr ⟨hmem, hne⟩⟩
        · exact ⟨info', hinfo, rfl, fun _ hmem _ => hmem⟩

/-- **Closing a tunnel.** -/
theorem Tables.closes (htables : Tables net k p r) (tid : Nat) : Closes tid r (r.closeTunnel tid) := by
  have hkept : ∀ {hash : FileHash} {info : TurtleHashInfo}, r.incomingFileHashes[hash]? = some info →
      ∃ info', r.incomingFileHashes[hash]? = some info' ∧ info'.service = info.service ∧
        ∀ tid' ∈ info.tunnels, tid' ≠ tid → tid' ∈ info'.tunnels :=
    fun hinfo => ⟨_, hinfo, rfl, fun _ hmem _ => hmem⟩
  have hgone : (r.localTunnels.erase tid)[tid]? = none := by
    rw [OrderedMap.lookup_erase, if_pos rfl]
  unfold TurtleRouter.closeTunnel
  cases htunnel : r.localTunnels[tid]? with
  | none =>
      refine { Shrinks.refl with
        gone := htunnel
        others := fun _ => rfl
        services := fun _ => rfl
        monitored := hkept
        virtualPeers := fun {vpid tid'} hvpid => ⟨hvpid, ?_⟩ }
      rintro rfl
      obtain ⟨tunnel, htunnel', -⟩ := htables.virtualPeers hvpid
      rw [htunnel] at htunnel'
      cases htunnel'
  | some tunnel =>
      dsimp only
      rw [htables.ownId]
      by_cases hsrc : tunnel.localSrc = p
      · rw [if_pos hsrc]
        have hsame : (r.closeStart tid tunnel).localTunnels = r.localTunnels := by
          unfold TurtleRouter.closeStart
          dsimp only
          split <;> rfl
        rw [hsame]
        exact closes_start htables htunnel
      rw [if_neg hsrc]
      by_cases hdst : tunnel.localDst = p
      · rw [if_pos hdst]
        obtain ⟨-, service, hservice, -⟩ := htables.ends htunnel hdst
        unfold TurtleRouter.closeEnd
        rw [hservice]
        refine { Shrinks.refl with
          tunnels := fun htunnel => (lookup_of_erase htunnel).1
          gone := hgone
          others := fun hne => OrderedMap.lookup_erase_ne _ hne.symm
          services := fun hne => OrderedMap.lookup_erase_ne _ hne.symm
          monitored := hkept
          virtualPeers := fun {vpid tid'} hvpid => ?_ }
        change (r.virtualPeers.erase tunnel.vpid)[vpid]? = some tid' at hvpid
        obtain ⟨hold, hne⟩ := lookup_of_erase hvpid
        exact ⟨hold, htables.virtualPeer_ne htunnel hne hold⟩
      · rw [if_neg hdst]
        refine { Shrinks.refl with
          tunnels := fun htunnel => (lookup_of_erase htunnel).1
          gone := hgone
          others := fun hne => OrderedMap.lookup_erase_ne _ hne.symm
          services := fun _ => rfl
          monitored := hkept
          virtualPeers := fun {vpid tid'} hvpid => ⟨hvpid, ?_⟩ }
        rintro rfl
        obtain ⟨tunnel', htunnel', -, hend⟩ := htables.virtualPeers hvpid
        rw [htunnel] at htunnel'
        obtain rfl := Option.some.inj htunnel'
        rcases hend with ⟨hstart, -⟩ | hend
        · exact hsrc hstart
        · exact hdst hend

theorem Router.closeTunnel (hrouter : Router net k p r) (tid : Nat) :
    Router net k p (r.closeTunnel tid) := by
  have hcloses := hrouter.tables.closes tid
  have htables := hrouter.tables.close hcloses
  unfold TurtleRouter.closeTunnel at htables ⊢
  cases htunnel : r.localTunnels[tid]? with
  | none => exact hrouter
  | some tunnel =>
      rw [htunnel] at htables
      dsimp only at htables ⊢
      rw [hrouter.tables.ownId] at htables ⊢
      by_cases hsrc : tunnel.localSrc = p
      · rw [if_pos hsrc] at htables ⊢
        unfold TurtleRouter.closeStart at htables ⊢
        dsimp only at htables ⊢
        cases hinfo : r.incomingFileHashes[tunnel.hash]? with
        | none =>
            rw [hinfo] at htables
            exact hrouter.of_same htables rfl rfl
        | some info =>
            rw [hinfo] at htables
            have hmore := k.including_append (p := p) r.calls
              [.removeVirtualPeer info.service tunnel.hash tunnel.vpid]
            have hnotNull : tunnel.hash ≠ nullFileHash := fun heq =>
              net.notNull (heq ▸ (hrouter.tables.hashes hinfo).1)
            obtain ⟨-, info', hinfo', -, htold⟩ := hrouter.tables.starts htunnel hsrc hnotNull
            rw [hinfo] at hinfo'
            obtain rfl := Option.some.inj hinfo'
            exact hrouter.of_called (htables.mono hmore) rfl rfl ⟨.server, hmore.calls htold⟩
      · rw [if_neg hsrc] at htables ⊢
        by_cases hdst : tunnel.localDst = p
        · rw [if_pos hdst] at htables ⊢
          obtain ⟨-, service, hservice, htold⟩ := hrouter.tables.ends htunnel hdst
          unfold TurtleRouter.closeEnd at htables ⊢
          rw [hservice] at htables ⊢
          have hmore := k.including_append (p := p) r.calls
            [.removeVirtualPeer (some service) tunnel.hash tunnel.vpid]
          exact hrouter.of_called (htables.mono hmore) rfl rfl ⟨.client, hmore.calls htold⟩
        · rw [if_neg hdst] at htables ⊢
          exact hrouter.of_same htables rfl rfl

/-- Closing one tunnel after the other. -/
theorem Router.closeTunnels (tids : List Nat) : ∀ {r : TurtleRouter}, Router net k p r →
    Router net k p (tids.foldl TurtleRouter.closeTunnel r) ∧
      Shrinks r (tids.foldl TurtleRouter.closeTunnel r) ∧
      ∀ tid ∈ tids, (tids.foldl TurtleRouter.closeTunnel r).localTunnels[tid]? = none := by
  induction tids with
  | nil => exact fun hrouter => ⟨hrouter, Shrinks.refl, fun tid hmem => by cases hmem⟩
  | cons tid tids ih =>
      intro r hrouter
      have hcloses := hrouter.tables.closes tid
      obtain ⟨hrouter', hshrinks, hgone⟩ := ih (hrouter.closeTunnel tid)
      rw [List.foldl_cons]
      refine ⟨hrouter', hcloses.toShrinks.trans hshrinks, fun tid' hmem => ?_⟩
      rcases List.mem_cons.mp hmem with rfl | hmem
      · by_contra hsome
        obtain ⟨tunnel, htunnel⟩ := Option.ne_none_iff_exists'.mp hsome
        have hbefore := hshrinks.tunnels htunnel
        rw [hcloses.gone] at hbefore
        cases hbefore
      · exact hgone tid' hmem

theorem Router.removeHash (hrouter : Router net k p r) (hash : FileHash) :
    Router net k p (r.removeHash hash) ∧ Shrinks r (r.removeHash hash) := by
  unfold TurtleRouter.removeHash
  cases hinfo : r.incomingFileHashes[hash]? with
  | none => exact ⟨hrouter, Shrinks.refl⟩
  | some info =>
      obtain ⟨hrouter', hshrinks, hgone⟩ := Router.closeTunnels info.tunnels hrouter
      dsimp only
      generalize info.tunnels.foldl TurtleRouter.closeTunnel r = r' at hrouter' hshrinks hgone ⊢
      have htables := hrouter'.tables
      constructor
      · refine hrouter'.of_same { htables with starts := ?_, hashes := ?_ } rfl rfl
        · intro tid tunnel htunnel hsrc hnotNull
          obtain ⟨hvpid, info', hinfo', hmem, htold⟩ := htables.starts htunnel hsrc hnotNull
          refine ⟨hvpid, info', ?_, hmem, htold⟩
          rw [OrderedMap.lookup_erase_ne _ fun heq => ?_]
          · exact hinfo'
          · obtain ⟨info'', hinfo'', -, -, hsub⟩ := hshrinks.hashes hinfo'
            rw [← heq, hinfo] at hinfo''
            obtain rfl := Option.some.inj hinfo''
            rw [hgone tid (hsub tid hmem)] at htunnel
            cases htunnel
        · exact fun hlookup => htables.hashes (lookup_of_erase hlookup).1
      · exact hshrinks.trans { Shrinks.refl with
          hashes := fun hlookup => ⟨_, (lookup_of_erase hlookup).1, rfl, rfl, fun _ => id⟩ }

theorem Router.removeHashes (hrouter : Router net k p r) :
    Router net k p r.removeHashes ∧ Shrinks r r.removeHashes := by
  have hloop : ∀ (hashes : List FileHash) {r : TurtleRouter}, Router net k p r →
      Router net k p (hashes.foldl TurtleRouter.removeHash r) ∧
        Shrinks r (hashes.foldl TurtleRouter.removeHash r) := by
    intro hashes
    induction hashes with
    | nil => exact fun hrouter => ⟨hrouter, Shrinks.refl⟩
    | cons hash hashes ih =>
        intro r hrouter
        obtain ⟨hrouter', hshrinks⟩ := hrouter.removeHash hash
        obtain ⟨hrouter'', hshrinks'⟩ := ih hrouter'
        exact ⟨hrouter'', hshrinks.trans hshrinks'⟩
  obtain ⟨hrouter', hshrinks⟩ := hloop (r.hashesToRemove.toList.map Prod.fst) hrouter
  unfold TurtleRouter.removeHashes
  exact ⟨hrouter'.of_same { hrouter'.tables with } rfl rfl, hshrinks.trans { Shrinks.refl with }⟩

/-- **Cleaning.** A request is forgotten only when it is old. -/
theorem Router.autoWash (hrouter : Router net k p r) (now : Nat) :
    Router net k p (r.autoWash now) ∧ (r.autoWash now).sent = r.sent ∧
      ∀ {id : Nat} {info}, r.tunnelRequestsOrigins[id]? = some info →
        now ≤ info.timeStamp + tunnelRequestsLifeTime →
          id ∈ (r.autoWash now).tunnelRequestsOrigins := by
  obtain ⟨hrouter', hshrinks⟩ := hrouter.removeHashes
  have hforget : Router net k p (r.removeHashes.forgetRequests now) := by
    refine hrouter'.of_same { hrouter'.tables with requests := fun {id info} hinfo => ?_ } rfl rfl
    change (r.removeHashes.tunnelRequestsOrigins.filter _)[id]? = some info at hinfo
    rw [OrderedMap.lookup_filter] at hinfo
    exact hrouter'.tables.requests (Option.filter_eq_some_iff.mp hinfo).1
  obtain ⟨hrouter'', hshrinks', -⟩ := Router.closeTunnels
    (((r.removeHashes.forgetRequests now).localTunnels.toList.filter fun entry =>
      decide (now > entry.2.timeStamp + maximumTunnelIdleTime)).map Prod.fst) hforget
  refine ⟨hrouter'', hshrinks'.sent.trans hshrinks.sent, fun {id info} hinfo hyoung => ?_⟩
  unfold TurtleRouter.autoWash TurtleRouter.closeIdle
  rw [hshrinks'.requests, Std.ExtTreeMap.mem_iff_isSome_getElem?]
  change (r.removeHashes.tunnelRequestsOrigins.filter _)[id]?.isSome = true
  rw [OrderedMap.lookup_filter, hshrinks.requests, hinfo, Option.filter_some, if_pos]
  · rfl
  · simpa using hyoung

end RetroShare.Turtle.Tunnels
