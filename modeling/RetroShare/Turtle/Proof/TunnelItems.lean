import RetroShare.Turtle.Proof.TunnelTables

/-!
# What a router does with an item

A request leaves a tunnel at the router that has the file, and a trail at the others. The answer makes of
the trail a tunnel, router by router, and data stays on the route of its tunnel up to the other end.
-/

namespace RetroShare.Turtle.Tunnels

variable {net : Setting} {k : Ledger} {p q peerId : PeerId} {r : TurtleRouter} {tid : Nat}
  {hash : FileHash} {env : Surroundings}

/-- What the router has told a service last. -/
theorem Ledger.told_including (k : Ledger) (calls : List ServiceCall) {service : Option ServiceId}
    {vpid : PeerId} {direction : Direction} :
    (k.including p (calls ++ [.addVirtualPeer service hash vpid direction])).Told p service hash vpid
      direction :=
  List.mem_append_right _ (List.mem_map_of_mem (List.mem_append_right _ List.mem_cons_self))

/-- A virtual peer has the id that its tunnel gives it. -/
theorem Tables.vpid_eq (htables : Tables net k p r) {vpid : PeerId}
    (hvpid : r.virtualPeers[vpid]? = some tid) : vpid = virtualPeerId tid := by
  obtain ⟨tunnel, htunnel, rfl, hend⟩ := htables.virtualPeers hvpid
  rcases hend with ⟨hsrc, hnotNull⟩ | hdst
  · exact (htables.starts htunnel hsrc hnotNull).1
  · exact (htables.ends htunnel hdst).1

theorem Tables.virtualPeers_insert (htables : Tables net k p r) {vpid : PeerId} {tid' : Nat}
    (hvpid : (r.virtualPeers.insert (virtualPeerId tid) tid)[vpid]? = some tid') :
    (vpid = virtualPeerId tid ∧ tid' = tid) ∨ (r.virtualPeers[vpid]? = some tid' ∧ tid' ≠ tid) := by
  rcases lookup_of_insert hvpid with hnew | ⟨hne, hold⟩
  · exact Or.inl hnew
  · refine Or.inr ⟨hold, ?_⟩
    rintro rfl
    exact hne (htables.vpid_eq hold)

/-! ### Requests -/

/-- The request as it is when it comes to the router that the trail has been led to. -/
def Arrives (net : Setting) (k : Ledger) (p peerId : PeerId) (item : OpenTunnelItem) : Prop :=
  ∃ path, k.trail p item.requestId = some (item.fileHash, path) ∧ peerId = path.headD p ∧
    item.partialTunnelId = net.arrivingTunnelId item.fileHash p path

theorem isTunnel_of_trail (hleads : TrailsLead net k) {id : Nat} {path : List PeerId}
    (htrail : k.trail p id = some (hash, q :: path)) :
    net.IsTunnel hash (p :: q :: path) (net.partialTunnelId hash q path ^^^
      generatePersonalFilePrint p hash (net.randomBias p) false).toNat where
  asked := hleads.asked htrail
  nodup := hleads.nodup htrail
  peers := hleads.peers htrail
  length := Nat.le_add_left 2 _
  eq := rfl

theorem Router.endTunnel (hrouter : Router net k p r) (hleads : TrailsLead net k)
    {item : OpenTunnelItem} (harrives : Arrives net k p peerId item) (hother : peerId ≠ p)
    (service : ServiceId) : Router net k p (r.endTunnel env peerId item service) := by
  obtain ⟨path, htrail, hpeer, hpartial⟩ := harrives
  cases path with
  | nil => exact absurd hpeer hother
  | cons previous path =>
  obtain rfl : peerId = previous := hpeer
  have htunnel := isTunnel_of_trail hleads htrail
  have htables := hrouter.tables
  unfold TurtleRouter.endTunnel TurtleRouter.addDistantPeer TurtleRouter.sendItem
    TurtleRouter.callService
  dsimp only
  rw [OrderedMap.lookup_insert_self, Option.getD_some, OrderedMap.lookup_insert_self, Option.getD_some,
    hpartial, htables.ownId, htables.randomBias]
  change net.IsTunnel _ _ (net.arrivingTunnelId item.fileHash p (peerId :: path) ^^^ _).toNat at htunnel
  generalize (net.arrivingTunnelId item.fileHash p (peerId :: path) ^^^
    generatePersonalFilePrint p item.fileHash (net.randomBias p) false).toNat = tid at htunnel ⊢
  have hmore := k.including_append (p := p) r.calls
    [.addVirtualPeer (some service) item.fileHash (virtualPeerId tid) .client]
  have htold : (k.including p (r.calls ++ [.addVirtualPeer (some service) item.fileHash
      (virtualPeerId tid) .client])).Told p (some service) item.fileHash (virtualPeerId tid)
        .client :=
    k.told_including r.calls
  have hold := htables.mono hmore
  refine ⟨?_, fun sent hsent => ?_, fun call hcall => ?_⟩
  · refine { hold with
      ownId := rfl, randomBias := rfl, placed := ?_, starts := ?_, ends := ?_, virtualPeers := ?_ }
    · intro tid' tunnel hlookup
      simp only [OrderedMap.lookup_insert] at hlookup
      split at hlookup
      · next heq =>
          obtain rfl := Option.some.inj hlookup
          exact ⟨item.fileHash, [], peerId :: path, heq ▸ htunnel, rfl, rfl⟩
      · exact hold.placed hlookup
    · intro tid' tunnel hlookup hsrc hnotNull
      simp only [OrderedMap.lookup_insert] at hlookup
      split at hlookup
      · obtain rfl := Option.some.inj hlookup
        exact absurd hsrc hother
      · exact hold.starts hlookup hsrc hnotNull
    · intro tid' tunnel hlookup hdst
      simp only [OrderedMap.lookup_insert] at hlookup ⊢
      split at hlookup
      · next heq =>
          obtain rfl := Option.some.inj hlookup
          rw [if_pos heq, ← heq]
          exact ⟨rfl, service, rfl, htold⟩
      · next hne =>
          rw [if_neg hne]
          exact hold.ends hlookup hdst
    · intro vpid tid' hvpid
      simp only [OrderedMap.lookup_insert]
      rcases htables.virtualPeers_insert hvpid with ⟨rfl, rfl⟩ | ⟨hvpid, hne⟩
      · rw [if_pos rfl]
        exact ⟨_, rfl, rfl, Or.inr rfl⟩
      · rw [if_neg hne.symm, if_neg hne.symm]
        exact hold.virtualPeers hvpid
  · rcases List.mem_append.mp hsent with hbefore | hnew
    · exact (hrouter.sent sent hbefore).mono hmore
    · rw [List.mem_singleton.mp hnew]
      exact ⟨item.fileHash, path, [], hleads.back htrail, htunnel⟩
  · rcases List.mem_append.mp hcall with hbefore | hnew
    · exact (hrouter.calls call hbefore).mono hmore
    · rw [List.mem_singleton.mp hnew]
      exact ⟨rfl, p :: peerId :: path, tid, htunnel, rfl, rfl⟩

theorem Router.forwardTunnelRequest (hrouter : Router net k p r) {item : OpenTunnelItem}
    (harrives : Arrives net k p peerId item) (hpeers : ∀ q ∈ env.peersConnected, q ∈ net.peers) :
    Router net k p (r.forwardTunnelRequest env peerId item) := by
  unfold TurtleRouter.forwardTunnelRequest
  dsimp only
  split
  · refine ⟨{ hrouter.tables with }, fun sent hsent => ?_, hrouter.calls⟩
    rcases List.mem_append.mp hsent with hbefore | hnew
    · exact hrouter.sent sent hbefore
    · obtain ⟨peer, hpeer, rfl⟩ := List.mem_map.mp hnew
      obtain ⟨path, htrail, -, hpartial⟩ := harrives
      refine ⟨hpeers peer (List.mem_of_mem_filter hpeer), path, htrail, ?_⟩
      rw [Setting.partialTunnelId_eq, ← hpartial, hrouter.tables.ownId, hrouter.tables.randomBias]
  · exact hrouter

/-- What the router remembers of the requests. -/
def Remembers (r r' : TurtleRouter) : Prop :=
  ∀ id ∈ r.tunnelRequestsOrigins, id ∈ r'.tunnelRequestsOrigins

/-- **A request.** It is remembered whenever it is sent on. -/
theorem Router.handleTunnelRequest (hrouter : Router net k p r) (hleads : TrailsLead net k)
    {item : OpenTunnelItem} (harrives : Arrives net k p peerId item)
    (hpeers : ∀ q ∈ env.peersConnected, q ∈ net.peers) :
    Router net k p (r.handleTunnelRequest env peerId item) ∧
      Remembers r (r.handleTunnelRequest env peerId item) ∧
      (item.requestId ∈ (r.handleTunnelRequest env peerId item).tunnelRequestsOrigins ∨
        r.handleTunnelRequest env peerId item = r) ∧
      ∀ sent ∈ (r.handleTunnelRequest env peerId item).sent, sent ∈ r.sent ∨
        ∀ other, sent.2 = .openTunnel other → other.requestId = item.requestId := by
  unfold TurtleRouter.handleTunnelRequest
  split
  · exact ⟨hrouter, fun _ => id, Or.inr rfl, fun _ => Or.inl⟩
  split
  · next hknown => exact ⟨hrouter, fun _ => id, Or.inl hknown, fun _ => Or.inl⟩
  obtain ⟨path, htrail, hpeer, hpartial⟩ := harrives
  have hnoted : Router net k p { r with
      tunnelRequestsOrigins := r.tunnelRequestsOrigins.insert item.requestId
        { origin := peerId, timeStamp := env.now % 2 ^ 32, depth := item.depth } } := by
    refine hrouter.of_same { hrouter.tables with requests := fun {id info} hinfo => ?_ } rfl rfl
    rcases lookup_of_insert hinfo with ⟨rfl, rfl⟩ | ⟨-, hinfo⟩
    · exact ⟨item.fileHash, path, htrail, hpeer⟩
    · exact hrouter.tables.requests hinfo
  have hkept : ∀ info, ∀ id ∈ r.tunnelRequestsOrigins,
      id ∈ r.tunnelRequestsOrigins.insert item.requestId info := fun info id hmem =>
    Std.ExtTreeMap.mem_insert.mpr (Or.inr hmem)
  have hnew : ∀ info, item.requestId ∈ r.tunnelRequestsOrigins.insert item.requestId info :=
    fun info => Std.ExtTreeMap.mem_insert_self
  dsimp only
  split
  · next service hfound =>
      have hother : peerId ≠ p := fun heq => by
        rw [hrouter.tables.ownId, if_pos heq] at hfound
        cases hfound
      refine ⟨hnoted.endTunnel hleads ⟨path, htrail, hpeer, hpartial⟩ hother service, hkept _,
        Or.inl (hnew _), fun sent hsent => ?_⟩
      rcases List.mem_append.mp hsent with hbefore | hanswer
      · exact Or.inl hbefore
      · refine Or.inr fun other heq => ?_
        rw [List.mem_singleton.mp hanswer] at heq
        cases heq
  · refine ⟨hnoted.forwardTunnelRequest ⟨path, htrail, hpeer, hpartial⟩ hpeers, ?_, Or.inl ?_,
      fun sent hsent => ?_⟩
    · unfold TurtleRouter.forwardTunnelRequest
      dsimp only
      split <;> exact hkept _
    · unfold TurtleRouter.forwardTunnelRequest
      dsimp only
      split <;> exact hnew _
    · unfold TurtleRouter.forwardTunnelRequest at hsent
      dsimp only at hsent
      split at hsent
      · rcases List.mem_append.mp hsent with hbefore | hforwarded
        · exact Or.inl hbefore
        · obtain ⟨peer, -, rfl⟩ := List.mem_map.mp hforwarded
          exact Or.inr fun other heq => by cases heq; rfl
      · exact Or.inl hsent

/-! ### Monitoring -/

theorem Router.monitorTunnels (hrouter : Router net k p r) (hasked : hash ∈ net.hashes)
    (service : ServiceId) (allowMultiTunnels : Bool) (draw : Nat) :
    Router net k p (r.monitorTunnels hash service allowMultiTunnels draw) := by
  unfold TurtleRouter.monitorTunnels
  dsimp only
  split
  · exact hrouter.of_same { hrouter.tables with } rfl rfl
  · next habsent =>
      have hnone : r.incomingFileHashes[hash]? = none := Std.ExtTreeMap.getElem?_eq_none habsent
      refine hrouter.of_same { hrouter.tables with starts := ?_, hashes := ?_ } rfl rfl
      · intro tid tunnel htunnel hsrc hnotNull
        obtain ⟨hvpid, info, hinfo, hrest⟩ := hrouter.tables.starts htunnel hsrc hnotNull
        refine ⟨hvpid, info, ?_, hrest⟩
        rw [OrderedMap.lookup_insert_ne _ _ fun heq => ?_]
        · exact hinfo
        · rw [← heq, hnone] at hinfo
          cases hinfo
      · intro hash' info hinfo
        rcases lookup_of_insert hinfo with ⟨rfl, rfl⟩ | ⟨-, hinfo⟩
        · exact ⟨hasked, rfl, fun hne => absurd rfl hne⟩
        · exact hrouter.tables.hashes hinfo

/-- A request of our own goes out as one that has come to us. -/
theorem Router.diggTunnel (hrouter : Router net k p r) (hleads : TrailsLead net k) {id : Nat}
    (htrail : k.trail p id = some (hash, [])) (hmonitored : hash ∈ r.incomingFileHashes)
    (hpeers : ∀ q ∈ env.peersConnected, q ∈ net.peers) :
    Router net k p (r.diggTunnel env hash id) ∧ Remembers r (r.diggTunnel env hash id) ∧
      ∀ sent ∈ (r.diggTunnel env hash id).sent, sent ∈ r.sent ∨
        (id ∈ (r.diggTunnel env hash id).tunnelRequestsOrigins ∧
          ∀ other, sent.2 = .openTunnel other → other.requestId = id) := by
  obtain ⟨info, hinfo⟩ := Option.isSome_iff_exists.mp
    (Std.ExtTreeMap.mem_iff_isSome_getElem?.mp hmonitored)
  have htables := hrouter.tables
  have hdigging : Router net k p { r with
      incomingFileHashes := r.incomingFileHashes.insert hash
        { info with lastRequest := id, lastDiggTime := env.now } } := by
    refine hrouter.of_same { htables with starts := ?_, hashes := ?_ } rfl rfl
    · intro tid tunnel htunnel hsrc hnotNull
      obtain ⟨hvpid, info', hinfo', hmem, htold⟩ := htables.starts htunnel hsrc hnotNull
      dsimp only
      rw [OrderedMap.lookup_insert]
      split
      · next heq =>
          rw [← heq, hinfo] at hinfo'
          obtain rfl := Option.some.inj hinfo'
          exact ⟨hvpid, _, rfl, hmem, htold⟩
      · exact ⟨hvpid, info', hinfo', hmem, htold⟩
    · intro hash' info' hinfo'
      rcases lookup_of_insert hinfo' with ⟨rfl, rfl⟩ | ⟨-, hinfo'⟩
      · obtain ⟨hasked, hservice, -⟩ := htables.hashes hinfo
        exact ⟨hasked, hservice, fun _ => htrail⟩
      · exact htables.hashes hinfo'
  unfold TurtleRouter.diggTunnel
  rw [hinfo, Option.getD_some]
  dsimp only
  have harrives : Arrives net k p r.ownId {
      fileHash := hash
      requestId := id
      partialTunnelId := generatePersonalFilePrint r.ownId hash r.randomBias true
      depth := 0 } := by
    refine ⟨[], htrail, htables.ownId, ?_⟩
    rw [htables.ownId, htables.randomBias]
    rfl
  obtain ⟨hhandled, hremembers, hknown, hsent⟩ :=
    hdigging.handleTunnelRequest hleads harrives hpeers
  refine ⟨hhandled, hremembers, fun sent hmem => ?_⟩
  rcases hknown with hknown | hsame
  · rcases hsent sent hmem with hbefore | hnew
    · exact Or.inl hbefore
    · exact Or.inr ⟨hknown, hnew⟩
  · rw [hsame] at hmem
    exact Or.inl hmem

/-! ### Results -/

/-- No request goes out. -/
def Quiet (r r' : TurtleRouter) : Prop :=
  ∀ sent ∈ r'.sent, sent ∈ r.sent ∨ ∀ other, sent.2 ≠ .openTunnel other

/-- A router at one end of a tunnel is not at the other. -/
theorem Placed.not_both {tunnel : TurtleTunnel} (hplaced : Placed net p tid tunnel)
    (hsrc : tunnel.localSrc = p) : tunnel.localDst ≠ p := by
  obtain ⟨hash, before, after, htunnel, hsrc', hdst'⟩ := hplaced
  intro hdst
  have hafter := (headD_eq_iff htunnel.nodup).mp (hsrc'.symm.trans hsrc)
  have hbefore := (getLastD_eq_iff htunnel.nodup).mp (hdst'.symm.trans hdst)
  have hlength := htunnel.length
  rw [hafter, hbefore] at hlength
  exact absurd hlength (Nat.not_succ_le_self 1)

theorem Router.addSource (hrouter : Router net k p r) {info : TurtleHashInfo} {tunnel : TurtleTunnel}
    {route : List PeerId} (hinfo : r.incomingFileHashes[hash]? = some info)
    (hlookup : r.localTunnels[tid]? = some tunnel) (hsrc : tunnel.localSrc = p)
    (htunnel : net.IsTunnel hash route tid) (hlast : route.getLast? = some p) :
    Router net k p ((r.addSource tid hash info).callService
      (.addVirtualPeer info.service hash (virtualPeerId tid) .server)) := by
  have htables := hrouter.tables
  obtain ⟨hasked, hservice, hrequest⟩ := htables.hashes hinfo
  have hdst := (htables.placed hlookup).not_both hsrc
  unfold TurtleRouter.addSource TurtleRouter.addDistantPeer TurtleRouter.callService
  dsimp only
  rw [hlookup, Option.getD_some, OrderedMap.lookup_insert_self, Option.getD_some]
  generalize htids : (if tid ∈ info.tunnels then info.tunnels else info.tunnels ++ [tid]) = tids
  have hadded : tid ∈ tids := by
    rw [← htids]
    split
    · next hmem => exact hmem
    · exact List.mem_append_right _ List.mem_cons_self
  have hkept : ∀ tid' ∈ info.tunnels, tid' ∈ tids := by
    intro tid' hmem
    rw [← htids]
    split
    · exact hmem
    · exact List.mem_append_left _ hmem
  have hmore := k.including_append (p := p) r.calls
    [.addVirtualPeer info.service hash (virtualPeerId tid) .server]
  have htold : (k.including p (r.calls ++ [.addVirtualPeer info.service hash
      (virtualPeerId tid) .server])).Told p info.service hash (virtualPeerId tid) .server :=
    k.told_including r.calls
  have hold := htables.mono hmore
  refine hrouter.of_called { hold with
    placed := ?_, starts := ?_, ends := ?_, hashes := ?_, virtualPeers := ?_ } rfl rfl
    ⟨hservice, route, tid, htunnel, rfl, hlast⟩
  · intro tid' tunnel' hlookup'
    simp only [OrderedMap.lookup_insert] at hlookup'
    split at hlookup'
    · next heq =>
        obtain rfl := Option.some.inj hlookup'
        have hsame : Placed net p tid tunnel := hold.placed hlookup
        exact heq ▸ hsame
    · exact hold.placed hlookup'
  · intro tid' tunnel' hlookup' hsrc' hnotNull
    simp only [OrderedMap.lookup_insert] at hlookup' ⊢
    split at hlookup'
    · next heq =>
        obtain rfl := Option.some.inj hlookup'
        rw [if_pos rfl, ← heq]
        exact ⟨rfl, _, rfl, hadded, htold⟩
    · obtain ⟨hvpid, info', hinfo', hmem, htold'⟩ := hold.starts hlookup' hsrc' hnotNull
      refine ⟨hvpid, ?_⟩
      split
      · next heq =>
          rw [← heq, hinfo] at hinfo'
          obtain rfl := Option.some.inj hinfo'
          exact ⟨_, rfl, hkept tid' hmem, htold'⟩
      · exact ⟨info', hinfo', hmem, htold'⟩
  · intro tid' tunnel' hlookup' hdst'
    simp only [OrderedMap.lookup_insert] at hlookup'
    split at hlookup'
    · obtain rfl := Option.some.inj hlookup'
      exact absurd hdst' hdst
    · exact hold.ends hlookup' hdst'
  · intro hash' info' hinfo'
    rcases lookup_of_insert hinfo' with ⟨rfl, rfl⟩ | ⟨-, hinfo'⟩
    · exact ⟨hasked, hservice, hrequest⟩
    · exact hold.hashes hinfo'
  · intro vpid tid' hvpid
    simp only [OrderedMap.lookup_insert]
    rcases htables.virtualPeers_insert hvpid with ⟨rfl, rfl⟩ | ⟨hvpid, hne⟩
    · rw [if_pos rfl]
      exact ⟨_, rfl, rfl, Or.inl ⟨hsrc, fun heq => net.notNull (heq ▸ hasked)⟩⟩
    · rw [if_neg hne.symm, if_neg hne.symm]
      exact hold.virtualPeers hvpid

/-- The hash whose last request it was is the one of the tunnel. -/
theorem Router.startTunnel (hrouter : Router net k p r) {item : TunnelOkItem} {tunnel : TurtleTunnel}
    {route : List PeerId} (htrail : k.trail p item.requestId = some (hash, []))
    (hnotZero : item.requestId ≠ 0) (hlookup : r.localTunnels[item.tunnelId]? = some tunnel)
    (hsrc : tunnel.localSrc = p) (htunnel : net.IsTunnel hash route item.tunnelId)
    (hlast : route.getLast? = some p) :
    Router net k p (r.startTunnel item) ∧
      (r.startTunnel item).tunnelRequestsOrigins = r.tunnelRequestsOrigins ∧
      (r.startTunnel item).sent = r.sent := by
  unfold TurtleRouter.startTunnel
  dsimp only
  have hnodup : ((r.incomingFileHashes.toList.filter fun entry =>
      decide (entry.2.lastRequest = item.requestId)).map Prod.fst).Nodup :=
    (OrderedMap.nodup_keys_toList _).sublist (List.filter_sublist.map _)
  have hentries : ∀ entry ∈ r.incomingFileHashes.toList.filter fun entry =>
      decide (entry.2.lastRequest = item.requestId),
      entry.1 = hash ∧ r.incomingFileHashes[hash]? = some entry.2 := by
    rintro ⟨hash', info⟩ hmem
    obtain ⟨hentry, hrequest⟩ := List.mem_filter.mp hmem
    have hrequest : info.lastRequest = item.requestId := of_decide_eq_true hrequest
    have hinfo := (OrderedMap.mem_toList _).mp hentry
    have htrail' : k.trail p info.lastRequest = some (hash', []) :=
      (hrouter.tables.hashes hinfo).2.2 (hrequest ▸ hnotZero)
    rw [hrequest, htrail] at htrail'
    cases htrail'
    exact ⟨rfl, hinfo⟩
  generalize r.incomingFileHashes.toList.filter _ = requested at hnodup hentries ⊢
  cases requested with
  | nil => exact ⟨hrouter, rfl, rfl⟩
  | cons entry rest =>
      have hrest : rest = [] := by
        cases rest with
        | nil => rfl
        | cons entry' rest =>
            rw [List.map_cons, List.map_cons, List.nodup_cons] at hnodup
            refine absurd ?_ hnodup.1
            rw [(hentries entry List.mem_cons_self).1,
              ← (hentries entry' (List.mem_cons_of_mem _ List.mem_cons_self)).1]
            exact List.mem_cons_self
      obtain ⟨hash', info⟩ := entry
      obtain ⟨rfl, hinfo⟩ := hentries _ List.mem_cons_self
      subst hrest
      have hadded := hrouter.addSource hinfo hlookup hsrc htunnel hlast
      have hvpid : (((r.addSource item.tunnelId hash' info).localTunnels[item.tunnelId]?).getD {}).vpid =
          virtualPeerId item.tunnelId := by
        unfold TurtleRouter.addSource TurtleRouter.addDistantPeer
        dsimp only
        rw [OrderedMap.lookup_insert_self]
        rfl
      rw [List.foldl_cons, List.foldl_nil, List.getLast?_singleton]
      dsimp only
      rw [if_pos (hrouter.tables.hashes hinfo).2.1, hvpid]
      exact ⟨hadded, rfl, rfl⟩

theorem Router.noteResponse (hrouter : Router net k p r) {item : TunnelOkItem}
    {info : TurtleTunnelRequestInfo} {path : List PeerId}
    (htrail : k.trail p item.requestId = some (hash, path)) (horigin : info.origin = path.headD p) :
    Router net k p (r.noteResponse item info) := by
  refine hrouter.of_same { hrouter.tables with requests := fun {id info'} hinfo' => ?_ } rfl rfl
  change (r.tunnelRequestsOrigins.insert item.requestId _)[id]? = some info' at hinfo'
  rcases lookup_of_insert hinfo' with ⟨rfl, rfl⟩ | ⟨-, hinfo'⟩
  · exact ⟨hash, path, htrail, horigin⟩
  · exact hrouter.tables.requests hinfo'

variable (env) in
/-- The router has the tunnel then, with the peer that the request came from towards the source. -/
theorem Router.placeTunnel (hrouter : Router net k p r) (hunique : net.Unique) {item : TunnelOkItem}
    {info : TurtleTunnelRequestInfo} {before path : List PeerId}
    (hroute : net.IsTunnel hash ((before ++ [peerId]) ++ p :: path) item.tunnelId)
    (horigin : info.origin = path.headD p) :
    Router net k p (r.placeTunnel env peerId item info) ∧
      ∃ tunnel, (r.placeTunnel env peerId item info).localTunnels[item.tunnelId]? = some tunnel ∧
        tunnel.localSrc = path.headD p := by
  have htables := hrouter.tables
  have hother : peerId ≠ p := fun heq =>
    (List.nodup_append.mp hroute.nodup).2.2 peerId (by simp) p List.mem_cons_self heq
  unfold TurtleRouter.placeTunnel
  split
  · next hmem =>
      obtain ⟨tunnel, hlookup⟩ := Option.isSome_iff_exists.mp
        (Std.ExtTreeMap.mem_iff_isSome_getElem?.mp hmem)
      exact ⟨hrouter, tunnel, hlookup, ((htables.placed hlookup).at hunique hroute).1⟩
  · next habsent =>
      refine ⟨hrouter.of_same { htables with
        placed := ?_, starts := ?_, ends := ?_, virtualPeers := ?_ } rfl rfl,
        _, OrderedMap.lookup_insert_self _ _ _, horigin⟩
      · intro tid tunnel hlookup
        rcases lookup_of_insert hlookup with ⟨rfl, rfl⟩ | ⟨-, hlookup⟩
        · refine ⟨hash, before ++ [peerId], path, hroute, horigin, ?_⟩
          rw [List.getLastD_concat]
        · exact htables.placed hlookup
      · intro tid tunnel hlookup hsrc hnotNull
        rcases lookup_of_insert hlookup with ⟨rfl, rfl⟩ | ⟨-, hlookup⟩
        · exact absurd rfl hnotNull
        · exact htables.starts hlookup hsrc hnotNull
      · intro tid tunnel hlookup hdst
        rcases lookup_of_insert hlookup with ⟨rfl, rfl⟩ | ⟨-, hlookup⟩
        · exact absurd hdst hother
        · exact htables.ends hlookup hdst
      · intro vpid tid hvpid
        obtain ⟨tunnel, hlookup, hrest⟩ := htables.virtualPeers hvpid
        refine ⟨tunnel, ?_, hrest⟩
        dsimp only
        rw [OrderedMap.lookup_insert_ne _ _ fun heq => ?_]
        · exact hlookup
        · rw [← heq, Std.ExtTreeMap.getElem?_eq_none habsent] at hlookup
          cases hlookup

/-- **A result.** What it leaves is the place of the router on the route. -/
theorem Router.handleTunnelResult (hrouter : Router net k p r) (hleads : TrailsLead net k)
    (hunique : net.Unique) {item : TunnelOkItem} (hitem : ItemHolds net k peerId p (.tunnelOk item)) :
    Router net k p (r.handleTunnelResult env peerId item) ∧
      Remembers r (r.handleTunnelResult env peerId item) ∧
      Quiet r (r.handleTunnelResult env peerId item) := by
  obtain ⟨hash, path, before, htrail, htunnel⟩ := hitem
  have hroute : net.IsTunnel hash ((before ++ [peerId]) ++ p :: path) item.tunnelId := by
    rw [List.append_assoc]
    exact htunnel
  unfold TurtleRouter.handleTunnelResult
  cases hinfo : r.tunnelRequestsOrigins[item.requestId]? with
  | none => exact ⟨hrouter, fun _ => id, fun _ => Or.inl⟩
  | some info =>
  obtain ⟨hash', path', htrail', horigin⟩ := hrouter.tables.requests hinfo
  have htrail' : k.trail p item.requestId = some (hash', path') := htrail'
  rw [htrail] at htrail'
  cases htrail'
  dsimp only
  split
  · exact ⟨hrouter, fun _ => id, fun _ => Or.inl⟩
  obtain ⟨hplaced, tunnel, hlookup, hsrc⟩ :=
    (hrouter.noteResponse htrail horigin).placeTunnel env hunique hroute horigin
  have hnoted : Remembers r ((r.noteResponse item info).placeTunnel env peerId item info) := by
    intro id hmem
    unfold TurtleRouter.placeTunnel
    split <;> exact Std.ExtTreeMap.mem_insert.mpr (Or.inr hmem)
  have hsent : ((r.noteResponse item info).placeTunnel env peerId item info).sent = r.sent := by
    unfold TurtleRouter.placeTunnel
    split <;> rfl
  generalize (r.noteResponse item info).placeTunnel env peerId item info = placed at *
  split
  · next hown =>
      rw [hplaced.tables.ownId, horigin] at hown
      have hnil : path = [] := (headD_eq_iff hroute.nodup).mp hown
      subst hnil
      have hlast : (before ++ [peerId] ++ [p]).getLast? = some p := List.getLast?_concat
      obtain ⟨hstarted, hsame, hsent'⟩ := hplaced.startTunnel htrail (hleads.notZero htrail) hlookup hsrc
        hroute hlast
      refine ⟨hstarted, fun id hmem => ?_, fun sent hmem => Or.inl ?_⟩
      · rw [hsame]
        exact hnoted id hmem
      · rw [← hsent, ← hsent']
        exact hmem
  · next hown =>
      rw [hplaced.tables.ownId, horigin] at hown
      cases path with
      | nil => exact absurd rfl hown
      | cons next path =>
          refine ⟨hplaced.sendItem ?_, hnoted, fun sent hmem => ?_⟩
          · rw [horigin]
            exact ⟨hash, path, before ++ [peerId], hleads.back htrail, hroute⟩
          · rcases List.mem_append.mp hmem with hbefore | hnew
            · exact Or.inl (hsent ▸ hbefore)
            · rw [List.mem_singleton.mp hnew]
              exact Or.inr fun other heq => by cases heq

/-! ### Data -/

theorem Router.stampTunnel (hrouter : Router net k p r) {item : GenericTunnelItem} {tunnel : TurtleTunnel}
    (hlookup : r.localTunnels[item.tunnelId]? = some tunnel) (now : Nat) :
    Router net k p (r.stampTunnel now item tunnel) ∧
      (∃ timeStamp, (r.stampTunnel now item tunnel).localTunnels[item.tunnelId]? =
        some { tunnel with timeStamp }) ∧
      (r.stampTunnel now item tunnel).sent = r.sent ∧
      (r.stampTunnel now item tunnel).tunnelRequestsOrigins = r.tunnelRequestsOrigins := by
  unfold TurtleRouter.stampTunnel
  split
  · have htables := hrouter.tables
    refine ⟨hrouter.of_same { htables with
      placed := ?_, starts := ?_, ends := ?_, virtualPeers := ?_ } rfl rfl,
      ⟨_, OrderedMap.lookup_insert_self _ _ _⟩, rfl, rfl⟩
    · intro tid tunnel' hlookup'
      rcases lookup_of_insert hlookup' with ⟨rfl, rfl⟩ | ⟨-, hlookup'⟩
      · have hsame : Placed net p item.tunnelId tunnel := htables.placed hlookup
        exact hsame
      · exact htables.placed hlookup'
    · intro tid tunnel' hlookup' hsrc hnotNull
      rcases lookup_of_insert hlookup' with ⟨rfl, rfl⟩ | ⟨-, hlookup'⟩
      · have hsame := htables.starts hlookup hsrc hnotNull
        exact hsame
      · exact htables.starts hlookup' hsrc hnotNull
    · intro tid tunnel' hlookup' hdst
      rcases lookup_of_insert hlookup' with ⟨rfl, rfl⟩ | ⟨-, hlookup'⟩
      · have hsame := htables.ends hlookup hdst
        exact hsame
      · exact htables.ends hlookup' hdst
    · intro vpid tid hvpid
      obtain ⟨tunnel', hlookup', hrest⟩ := htables.virtualPeers hvpid
      dsimp only
      rw [OrderedMap.lookup_insert]
      split
      · next heq =>
          rw [← heq, hlookup] at hlookup'
          obtain rfl := Option.some.inj hlookup'
          exact ⟨_, rfl, hrest⟩
      · exact ⟨tunnel', hlookup', hrest⟩
  · exact ⟨hrouter, ⟨tunnel.timeStamp, hlookup⟩, rfl, rfl⟩

theorem quiet_sendItem (target : PeerId) (item : GenericTunnelItem) {r' : TurtleRouter}
    (hsent : r'.sent = r.sent) : Quiet r (r'.sendItem target (.generic item)) := by
  intro sent hmem
  rcases List.mem_append.mp hmem with hbefore | hnew
  · exact Or.inl (hsent ▸ hbefore)
  · rw [List.mem_singleton.mp hnew]
    exact Or.inr fun other heq => by cases heq

/-- Who was told of the virtual peer of a tunnel was told the hash of the tunnel. -/
theorem told_hash (hunique : net.Unique) (hcalls : ∀ entry ∈ k.calls, CallHolds net k entry.1 entry.2)
    {service : Option ServiceId} {hash' : FileHash} {route : List PeerId} {direction : Direction}
    (htunnel : net.IsTunnel hash route tid)
    (htold : k.Told p service hash' (virtualPeerId tid) direction) : hash' = hash := by
  obtain ⟨-, route', tid', htunnel', heq, -⟩ := hcalls _ htold
  exact (hunique.tunnel_eq htunnel' htunnel heq.symm).1

/-- The calls of before, and those of the router. -/
theorem Router.ledger_holds (hrouter : Router net k p r)
    (hcalls : ∀ entry ∈ k.calls, CallHolds net k entry.1 entry.2) :
    ∀ entry ∈ (k.including p r.calls).calls, CallHolds net (k.including p r.calls) entry.1 entry.2 := by
  intro entry hentry
  rcases List.mem_append.mp hentry with hbefore | hnew
  · exact (hcalls entry hbefore).mono (k.extends_including p r.calls)
  · obtain ⟨call, hcall, rfl⟩ := List.mem_map.mp hnew
    exact hrouter.calls call hcall

/-- The router is the end of the tunnel that data in this direction comes to. -/
def AtEnd (p : PeerId) (tunnel : TurtleTunnel) : Direction → Prop
  | .client => tunnel.localSrc = p
  | .server => tunnel.localDst = p

/-- The peer is the neighbour that data in this direction comes from. -/
def ComesFrom (peerId : PeerId) (tunnel : TurtleTunnel) : Direction → Prop
  | .client => peerId = tunnel.localDst ∧ peerId ≠ tunnel.localSrc
  | .server => peerId = tunnel.localSrc ∧ peerId ≠ tunnel.localDst

/-- Data that has come to the end of its tunnel. -/
theorem Router.handleRecvGenericTunnelItem (hrouter : Router net k p r) (hunique : net.Unique)
    (hcalls : ∀ entry ∈ k.calls, CallHolds net k entry.1 entry.2) {item : GenericTunnelItem}
    {tunnel : TurtleTunnel} {route : List PeerId} {direction : Direction} {service : Option ServiceId}
    (hlookup : r.localTunnels[item.tunnelId]? = some tunnel)
    (htunnel : net.IsTunnel hash route item.tunnelId)
    (hend : AtEnd p tunnel direction)
    (hne : q ≠ p) (hgiven : (q, virtualPeerId item.tunnelId, item.data) ∈ k.given)
    (htold : k.Told q service hash (virtualPeerId item.tunnelId) direction) :
    Router net k p (r.handleRecvGenericTunnelItem item direction) := by
  have htables := hrouter.tables
  have hholds := hrouter.ledger_holds hcalls
  unfold TurtleRouter.handleRecvGenericTunnelItem TurtleRouter.getTunnelServiceInfo
  rw [hlookup]
  dsimp only
  rw [htables.ownId]
  have hreceive : ∀ service', (k.including p r.calls).Told p service' tunnel.hash
      (virtualPeerId item.tunnelId) direction.opposite →
      Router net k p (r.callService (.receiveTurtleData service' item.data tunnel.hash
        (virtualPeerId item.tunnelId) direction)) := by
    intro service' htold'
    have hmore := k.including_append (p := p) r.calls
      [.receiveTurtleData service' item.data tunnel.hash (virtualPeerId item.tunnelId) direction]
    have hhash : tunnel.hash = hash := told_hash hunique hholds htunnel htold'
    apply hrouter.callService
    refine ⟨hmore.calls htold', q, service, hne, hgiven, ?_⟩
    rw [hhash]
    exact (k.extends_including p _).calls htold
  cases direction with
  | client =>
      have hend : tunnel.localSrc = p := hend
      rw [if_pos hend]
      cases hinfo : r.incomingFileHashes[tunnel.hash]? with
      | none => exact hrouter
      | some info =>
          obtain ⟨hvpid, info', hinfo', -, htold'⟩ := htables.starts hlookup hend fun heq =>
            net.notNull (heq ▸ (htables.hashes hinfo).1)
          rw [hinfo] at hinfo'
          obtain rfl := Option.some.inj hinfo'
          rw [hvpid] at htold'
          rw [Option.map_some, hvpid]
          exact hreceive info.service htold'
  | server =>
      have hend : tunnel.localDst = p := hend
      rw [if_neg fun hsrc => (htables.placed hlookup).not_both hsrc hend, if_pos hend]
      obtain ⟨hvpid, service', hservice, htold'⟩ := htables.ends hlookup hend
      rw [hvpid] at htold'
      rw [hservice, Option.map_some, hvpid]
      exact hreceive (some service') htold'

/-- The neighbour that data comes from is the one that the tunnel has on this side. -/
theorem Travels.from_neighbour (hunique : net.Unique) {item : GenericTunnelItem} {direction : Direction}
    (htravels : Travels net k peerId p item direction) {tunnel : TurtleTunnel}
    (hplaced : Placed net p item.tunnelId tunnel) : ComesFrom peerId tunnel direction := by
  obtain ⟨hash, before, after, htunnel, -⟩ := htravels
  cases direction with
  | client =>
      have hroute : net.IsTunnel hash ((before ++ [peerId]) ++ p :: after) item.tunnelId := by
        simpa using htunnel
      obtain ⟨hsrc, hdst⟩ := hplaced.at hunique hroute
      rw [List.getLastD_concat] at hdst
      refine ⟨hdst.symm, fun heq => ?_⟩
      have hdisjoint := (List.nodup_append.mp hroute.nodup).2.2 peerId (by simp)
      rw [hsrc] at heq
      cases after with
      | nil => exact hdisjoint p List.mem_cons_self heq
      | cons next after => exact hdisjoint next (by simp) heq
  | server =>
      have hroute : net.IsTunnel hash (before ++ p :: peerId :: after) item.tunnelId := by
        simpa using htunnel
      obtain ⟨hsrc, hdst⟩ := hplaced.at hunique hroute
      refine ⟨hsrc.symm, fun heq => ?_⟩
      obtain ⟨-, hnodup, hdisjoint⟩ := List.nodup_append.mp hroute.nodup
      rw [hdst] at heq
      cases before using List.reverseRecOn with
      | nil => exact (List.nodup_cons.mp hnodup).1 (heq ▸ List.mem_cons_self)
      | append_singleton before previous _ =>
          rw [List.getLastD_concat] at heq
          exact hdisjoint previous (by simp) peerId (by simp) heq.symm

/-- **Data.** It goes on along the route, or is handed over at its end. -/
theorem Router.routeGenericTunnelItem (hrouter : Router net k p r) (hunique : net.Unique)
    (hcalls : ∀ entry ∈ k.calls, CallHolds net k entry.1 entry.2) {item : GenericTunnelItem}
    {direction : Direction} (htravels : Travels net k peerId p item direction) (now : Nat) :
    Router net k p (r.routeGenericTunnelItem now peerId item) ∧
      Remembers r (r.routeGenericTunnelItem now peerId item) ∧
      Quiet r (r.routeGenericTunnelItem now peerId item) := by
  unfold TurtleRouter.routeGenericTunnelItem
  cases hlookup : r.localTunnels[item.tunnelId]? with
  | none => exact ⟨hrouter, fun _ => id, fun _ => Or.inl⟩
  | some tunnel =>
  dsimp only
  have hneighbour := htravels.from_neighbour hunique (hrouter.tables.placed hlookup)
  have hplaced := hrouter.tables.placed hlookup
  obtain ⟨hstamped, ⟨timeStamp, hlookup'⟩, hsent, hrequests⟩ := hrouter.stampTunnel hlookup now
  generalize r.stampTunnel now item tunnel = r' at hstamped hlookup' hsent hrequests ⊢
  have hremembers : Remembers r r' := fun id hmem => by
    rw [hrequests]
    exact hmem
  have hreceives : ∀ direction, Remembers r (r'.handleRecvGenericTunnelItem item direction) ∧
      Quiet r (r'.handleRecvGenericTunnelItem item direction) := by
    intro direction
    unfold TurtleRouter.handleRecvGenericTunnelItem
    split
    · exact ⟨hremembers, fun _ hmem => Or.inl (hsent ▸ hmem)⟩
    · exact ⟨hremembers, fun _ hmem => Or.inl (hsent ▸ hmem)⟩
  have hmore := k.extends_including p r'.calls
  obtain ⟨hash, before, after, htunnel, q, service, hsource, hgiven, htold⟩ := htravels
  cases direction with
  | client =>
      have hroute : net.IsTunnel hash ((before ++ [peerId]) ++ p :: after) item.tunnelId := by
        simpa using htunnel
      have hne : q ≠ p := fun heq => by
        obtain ⟨-, -, hdisjoint⟩ := List.nodup_append.mp hroute.nodup
        exact hdisjoint q (List.mem_of_mem_head? hsource) p List.mem_cons_self heq
      obtain ⟨hfrom, hnot⟩ := hneighbour
      obtain ⟨hsrc, -⟩ := hplaced.at hunique hroute
      rw [if_pos hfrom]
      dsimp only
      rw [hstamped.tables.ownId]
      split
      · next hforward =>
          refine ⟨hstamped.sendItem ?_, hremembers, quiet_sendItem _ item hsent⟩
          rw [hsrc] at hforward ⊢
          cases after with
          | nil => exact absurd rfl hforward.2
          | cons next after =>
              refine ⟨.client, hash, before ++ [peerId], after, ?_, q, service, ?_,
                hmore.given hgiven, hmore.calls htold⟩
              · simpa using hroute
              · change (before ++ [peerId] ++ [p]).head? = some q
                rw [List.head?_append, hsource]
                rfl
      · next hhere =>
          rw [if_neg fun hboth => hnot hboth.1]
          have hend : tunnel.localSrc = p := by
            by_contra hother
            exact hhere ⟨hfrom, hother⟩
          exact ⟨hstamped.handleRecvGenericTunnelItem hunique hcalls hlookup' htunnel hend hne
            hgiven htold, hreceives _⟩
  | server =>
      have hroute : net.IsTunnel hash (before ++ p :: peerId :: after) item.tunnelId := by
        simpa using htunnel
      have hne : q ≠ p := fun heq => by
        obtain ⟨-, hnodup, -⟩ := List.nodup_append.mp hroute.nodup
        exact (List.nodup_cons.mp hnodup).1 (heq ▸ List.mem_of_mem_getLast? hsource)
      obtain ⟨hfrom, hnot⟩ := hneighbour
      obtain ⟨-, hdst⟩ := hplaced.at hunique hroute
      rw [if_neg hnot, if_pos hfrom]
      dsimp only
      rw [hstamped.tables.ownId, if_neg fun hboth => hnot hboth.1]
      split
      · next hforward =>
          refine ⟨hstamped.sendItem ?_, hremembers, quiet_sendItem _ item hsent⟩
          rw [hdst] at hforward ⊢
          cases before using List.reverseRecOn with
          | nil => exact absurd rfl hforward.2
          | append_singleton before previous _ =>
              rw [List.getLastD_concat]
              refine ⟨.server, hash, before, peerId :: after, ?_, q, service, ?_,
                hmore.given hgiven, hmore.calls htold⟩
              · simpa using hroute
              · change (p :: peerId :: after).getLast? = some q
                rw [List.getLast?_cons_cons]
                exact hsource
      · next hhere =>
          have hend : tunnel.localDst = p := by
            by_contra hother
            exact hhere ⟨hfrom, hother⟩
          exact ⟨hstamped.handleRecvGenericTunnelItem hunique hcalls hlookup' htunnel hend hne
            hgiven htold, hreceives _⟩

/-- Data that is given for a virtual peer goes into the tunnel. -/
theorem Router.sendTurtleData (hrouter : Router net k p r) (hunique : net.Unique)
    (hcalls : ∀ entry ∈ k.calls, CallHolds net k entry.1 entry.2) {vpid : PeerId} {data : List UInt8}
    (hgiven : (p, vpid, data) ∈ k.given) (now : Nat) (shouldStampTunnel : Bool) :
    Router net k p (r.sendTurtleData now vpid shouldStampTunnel data) ∧
      Remembers r (r.sendTurtleData now vpid shouldStampTunnel data) ∧
      Quiet r (r.sendTurtleData now vpid shouldStampTunnel data) := by
  have htables := hrouter.tables
  have hholds := hrouter.ledger_holds hcalls
  unfold TurtleRouter.sendTurtleData
  cases hvpid : r.virtualPeers[vpid]? with
  | none => exact ⟨hrouter, fun _ => id, fun _ => Or.inl⟩
  | some tid =>
  obtain ⟨tunnel, hlookup, -, hend⟩ := htables.virtualPeers hvpid
  obtain rfl := htables.vpid_eq hvpid
  dsimp only
  rw [hlookup]
  dsimp only
  generalize hitem : (⟨tid, shouldStampTunnel, data⟩ : GenericTunnelItem) = item
  have htid : item.tunnelId = tid := by rw [← hitem]
  have hdata : item.data = data := by rw [← hitem]
  subst htid hdata
  obtain ⟨hstamped, -, hsent, hrequests⟩ := hrouter.stampTunnel hlookup now
  have hcallsSame : (r.stampTunnel now item tunnel).calls = r.calls := by
    unfold TurtleRouter.stampTunnel
    split <;> rfl
  generalize r.stampTunnel now item tunnel = r' at hstamped hsent hrequests hcallsSame ⊢
  have hremembers : Remembers r r' := fun id hmem => by
    rw [hrequests]
    exact hmem
  rw [hstamped.tables.ownId]
  obtain ⟨hash, before, after, htunnel, hsrc, hdst⟩ := htables.placed hlookup
  split
  · next hown =>
      refine ⟨hstamped.sendItem ?_, hremembers, quiet_sendItem _ item hsent⟩
      rw [hcallsSame]
      have hnotNull : tunnel.hash ≠ nullFileHash := by
        rcases hend with ⟨-, hnotNull⟩ | hboth
        · exact hnotNull
        · exact absurd hboth ((htables.placed hlookup).not_both hown)
      obtain ⟨hvpid', info, -, -, htold⟩ := htables.starts hlookup hown hnotNull
      rw [hvpid'] at htold
      have hhash := told_hash hunique hholds htunnel htold
      have hafter := (headD_eq_iff htunnel.nodup).mp (hsrc.symm.trans hown)
      subst hafter
      rw [hdst]
      cases before using List.reverseRecOn with
      | nil => exact absurd htunnel.length (Nat.not_succ_le_self 1)
      | append_singleton before previous _ =>
          rw [List.getLastD_concat]
          refine ⟨.server, hash, before, [], ?_, p, info.service, rfl, hgiven, hhash ▸ htold⟩
          simpa using htunnel
  · next hown =>
      split
      · next hown' =>
          refine ⟨hstamped.sendItem ?_, hremembers, quiet_sendItem _ item hsent⟩
          rw [hcallsSame]
          obtain ⟨hvpid', service, -, htold⟩ := htables.ends hlookup hown'
          rw [hvpid'] at htold
          have hhash := told_hash hunique hholds htunnel htold
          have hbefore := (getLastD_eq_iff htunnel.nodup).mp (hdst.symm.trans hown')
          subst hbefore
          rw [hsrc]
          cases after with
          | nil => exact absurd htunnel.length (Nat.not_succ_le_self 1)
          | cons next after =>
              refine ⟨.client, hash, [], after, ?_, p, some service, rfl, hgiven, hhash ▸ htold⟩
              simpa using htunnel
      · exact ⟨hstamped, hremembers, fun _ hmem => Or.inl (hsent ▸ hmem)⟩

end RetroShare.Turtle.Tunnels
