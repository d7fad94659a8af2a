import RetroShare.Turtle.Proof.TunnelItems

/-!
# Tunnels over whole runs

Routers of a network dig, monitor, clean and send as they like, and what is between them arrives in any
order or not at all. Data never leaves its tunnel: what a service receives was given at the other end, for
the same virtual peer and the same hash.
-/

namespace RetroShare.Turtle.Tunnels

open Transition

variable {net : Setting} {p q : PeerId} {s s' : Network} {hash : FileHash} {op : Op}
  {trail trail' : PeerId → Nat → Option (FileHash × List PeerId)} {call : TurtleRouter → TurtleRouter}

/-- The network before anything was asked for. -/
def start (net : Setting) : Network where
  routers := fun p => { ownId := p, randomBias := net.randomBias p }

/-- A request for `id` is between two routers. -/
def Network.Pending (s : Network) (id : Nat) : Prop :=
  ∃ message ∈ s.inFlight, ∃ item, message.item = .openTunnel item ∧ item.requestId = id

/-- Ids of requests are drawn once, requests are dug for hashes that are monitored, and no request is on
its way between two routers for so long that a router has forgotten it before. -/
def Op.Lawful (net : Setting) (s : Network) : Op → Prop
  | .diggTunnel peer env hash id =>
      peer ∈ net.peers ∧ id ≠ 0 ∧ id ∉ s.requestIds ∧ hash ∈ (s.routers peer).incomingFileHashes ∧
        ∀ q ∈ env.peersConnected, q ∈ net.peers
  | .monitorTunnels _ hash _ _ _ => hash ∈ net.hashes
  | .stopMonitoringTunnels _ _ => True
  | .autoWash peer now => ∀ id, s.Pending id → ∀ info,
      (s.routers peer).tunnelRequestsOrigins[id]? = some info →
        now ≤ info.timeStamp + tunnelRequestsLifeTime
  | .sendTurtleData .. => True
  | .deliver _ env => ∀ q ∈ env.peersConnected, q ∈ net.peers
  | .lose _ => True

def Network.ledger (s : Network) (trail : PeerId → Nat → Option (FileHash × List PeerId)) : Ledger :=
  ⟨trail, s.given, s.calls⟩

/-- Who has a trail of a request that is on its way knows the request. -/
structure Sound (net : Setting) (trail : PeerId → Nat → Option (FileHash × List PeerId)) (s : Network) :
    Prop where
  leads : TrailsLead net (s.ledger trail)
  routers : ∀ p, Tables net (s.ledger trail) p (s.routers p)
  idle : ∀ p, (s.routers p).sent = [] ∧ (s.routers p).calls = []
  inFlight : ∀ message ∈ s.inFlight,
    ItemHolds net (s.ledger trail) message.source message.target message.item
  calls : ∀ entry ∈ s.calls, CallHolds net (s.ledger trail) entry.1 entry.2
  pending : ∀ {id}, s.Pending id → ∀ q, trail q id ≠ none →
    id ∈ (s.routers q).tunnelRequestsOrigins
  requestIds : ∀ {q id}, trail q id ≠ none → id ∈ s.requestIds

theorem sound_start (net : Setting) : Sound net (fun _ _ => none) (start net) where
  leads := ⟨fun hway => absurd hway (Option.some_ne_none _).symm,
    fun hway => absurd hway (Option.some_ne_none _).symm,
    fun hway => absurd hway (Option.some_ne_none _).symm,
    fun hway => absurd hway (Option.some_ne_none _).symm,
    fun hway => absurd hway (Option.some_ne_none _).symm⟩
  routers := fun p => {
    ownId := rfl
    randomBias := rfl
    requests := fun hinfo => by simp [start] at hinfo
    placed := fun htunnel => by simp [start] at htunnel
    starts := fun htunnel => by simp [start] at htunnel
    ends := fun htunnel => by simp [start] at htunnel
    hashes := fun hinfo => by simp [start] at hinfo
    virtualPeers := fun hvpid => by simp [start] at hvpid }
  idle := fun _ => ⟨rfl, rfl⟩
  inFlight := fun _ hmem => by cases hmem
  calls := fun _ hmem => by cases hmem
  pending := fun ⟨_, hmem, _⟩ => by cases hmem
  requestIds := fun hne => absurd rfl hne

/-- Two routers that know a virtual peer are the two ends of one tunnel. -/
theorem told_together (hunique : net.Unique) {k : Ledger} {service service' : Option ServiceId}
    {hash' : FileHash} {vpid : PeerId} {direction direction' : Direction}
    (hholds : CallHolds net k p (.addVirtualPeer service hash vpid direction))
    (hholds' : CallHolds net k q (.addVirtualPeer service' hash' vpid direction')) :
    service.isSome ∧ hash = hash' ∧ (direction = direction' ↔ p = q) := by
  obtain ⟨hservice, route, tid, htunnel, hvpid, hend⟩ := hholds
  obtain ⟨-, route', tid', htunnel', hvpid', hend'⟩ := hholds'
  obtain ⟨hhash, rfl, -⟩ := hunique.tunnel_eq htunnel htunnel' (hvpid.symm.trans hvpid')
  refine ⟨hservice, hhash, ?_⟩
  have hends : ∀ {first last : PeerId}, route.head? = some first → route.getLast? = some last →
      first ≠ last := by
    intro first last hfirst hlast
    obtain ⟨head, next, rest, rfl⟩ := exists_cons_cons htunnel.length
    obtain rfl := Option.some.inj hfirst
    rw [List.getLast?_cons_cons] at hlast
    rintro rfl
    exact (List.nodup_cons.mp htunnel.nodup).1 (List.mem_of_getLast? hlast)
  cases direction with
  | client =>
      cases direction' with
      | client => exact ⟨fun _ => Option.some.inj (hend.symm.trans hend'), fun _ => rfl⟩
      | server => exact ⟨fun heq => absurd heq (by decide), fun heq => absurd heq (hends hend hend')⟩
  | server =>
      cases direction' with
      | client => exact ⟨fun heq => absurd heq (by decide), fun heq => absurd heq.symm (hends hend' hend)⟩
      | server => exact ⟨fun _ => Option.some.inj (hend.symm.trans hend'), fun _ => rfl⟩

/-- What a router has before a call. -/
theorem Sound.router (hsound : Sound net trail s) (p : PeerId) :
    Router net (s.ledger trail) p (s.routers p) := by
  obtain ⟨hsent, hcalls⟩ := hsound.idle p
  refine ⟨(hsound.routers p).mono ((s.ledger trail).extends_including p _), ?_, ?_⟩
  · rw [hsent]
    exact fun _ hmem => by cases hmem
  · rw [hcalls]
    exact fun _ hmem => by cases hmem

/-- Trails may be led on, and more may be given. -/
theorem Router.extend {k k' : Ledger} {r : TurtleRouter} (hrouter : Router net k p r)
    (hextends : k.Extends k') : Router net k' p r := by
  have hmore : (k.including p r.calls).Extends (k'.including p r.calls) := by
    refine ⟨hextends.trail, hextends.given, fun hmem => ?_⟩
    rcases List.mem_append.mp hmem with hbefore | hnew
    · exact List.mem_append_left _ (hextends.calls hbefore)
    · exact List.mem_append_right _ hnew
  exact ⟨hrouter.tables.mono hmore, fun sent hsent => (hrouter.sent sent hsent).mono hmore,
    fun call hcall => (hrouter.calls call hcall).mono hmore⟩

/-- **One call at one router.** What is left to show is what becomes of requests. -/
theorem Sound.act (hsound : Sound net trail s)
    (hextends : (s.ledger trail).Extends (s.ledger trail'))
    (hleads : TrailsLead net (s.ledger trail'))
    (hrouter : Router net (s.ledger trail') p (call (s.routers p)))
    (hids : ∀ {q id}, trail' q id ≠ none → id ∈ s.requestIds)
    (hpending : ∀ {id}, (s.act p call).Pending id → ∀ q, trail' q id ≠ none →
      id ∈ ((s.act p call).routers q).tunnelRequestsOrigins) :
    Sound net trail' (s.act p call) := by
  have hmore := (s.ledger trail').extends_including p (call (s.routers p)).calls
  refine ⟨⟨hleads.notZero, hleads.asked, hleads.nodup, hleads.peers, hleads.back⟩, fun q => ?_,
    fun q => ?_, fun message hmem => ?_, fun entry hentry => ?_, hpending, hids⟩
  · unfold Network.act
    dsimp only
    by_cases hq : q = p
    · rw [hq, Function.update_self]
      exact { hrouter.tables with }
    · rw [Function.update_of_ne hq]
      exact (hsound.routers q).mono (hextends.trans hmore)
  · unfold Network.act
    dsimp only
    by_cases hq : q = p
    · rw [hq, Function.update_self]
      exact ⟨rfl, rfl⟩
    · rw [Function.update_of_ne hq]
      exact hsound.idle q
  · rcases List.mem_append.mp hmem with hbefore | hnew
    · exact (hsound.inFlight message hbefore).mono (hextends.trans hmore)
    · obtain ⟨sent, hsent, rfl⟩ := List.mem_map.mp hnew
      exact hrouter.sent sent hsent
  · exact hrouter.ledger_holds (fun entry hentry => (hsound.calls entry hentry).mono hextends) entry hentry

/-- A request that is on its way after a call was so before, or was sent by it. -/
theorem pending_act {id : Nat} (hpending : (s.act p call).Pending id) :
    s.Pending id ∨ ∃ sent ∈ (call (s.routers p)).sent, ∃ item,
      sent.2 = .openTunnel item ∧ item.requestId = id := by
  obtain ⟨message, hmem, item, hitem, hid⟩ := hpending
  rcases List.mem_append.mp hmem with hbefore | hnew
  · exact Or.inl ⟨message, hbefore, item, hitem, hid⟩
  · obtain ⟨sent, hsent, rfl⟩ := List.mem_map.mp hnew
    exact Or.inr ⟨sent, hsent, item, hitem, hid⟩

theorem remembers_act (hremembers : Remembers (s.routers p) (call (s.routers p))) {id : Nat}
    (hknown : id ∈ (s.routers q).tunnelRequestsOrigins) :
    id ∈ ((s.act p call).routers q).tunnelRequestsOrigins := by
  unfold Network.act
  dsimp only
  by_cases hq : q = p
  · rw [hq, Function.update_self]
    exact hremembers id (hq ▸ hknown)
  · rw [Function.update_of_ne hq]
    exact hknown

/-- The call sends no request and forgets none. -/
theorem Sound.act_quiet (hsound : Sound net trail s)
    (hrouter : Router net (s.ledger trail) p (call (s.routers p)))
    (hremembers : Remembers (s.routers p) (call (s.routers p)))
    (hquiet : Quiet (s.routers p) (call (s.routers p))) : Sound net trail (s.act p call) := by
  refine hsound.act Ledger.Extends.refl hsound.leads hrouter hsound.requestIds
    fun {id} hpending q htrail => ?_
  rcases pending_act hpending with hbefore | ⟨sent, hsent, item, hitem, -⟩
  · exact remembers_act hremembers (hsound.pending hbefore q htrail)
  · rcases hquiet sent hsent with hold | hother
    · rw [(hsound.idle p).1] at hold
      cases hold
    · exact absurd hitem (hother item)

/-- Items that are gone are no harm. -/
theorem Sound.erase (hsound : Sound net trail s) (i : Nat) :
    Sound net trail { s with inFlight := s.inFlight.eraseIdx i } :=
  { hsound with
    inFlight := fun message hmem => hsound.inFlight message (List.mem_of_mem_eraseIdx hmem)
    pending := fun ⟨message, hmem, hrest⟩ =>
      hsound.pending ⟨message, List.mem_of_mem_eraseIdx hmem, hrest⟩ }

/-- A trail is led on to a router that has none. -/
def leadTo (trail : PeerId → Nat → Option (FileHash × List PeerId)) (p : PeerId) (id : Nat)
    (way : FileHash × List PeerId) : PeerId → Nat → Option (FileHash × List PeerId) :=
  Function.update trail p (Function.update (trail p) id (some way))

theorem leadTo_self (way : FileHash × List PeerId) (id : Nat) :
    leadTo trail p id way p id = some way := by
  rw [leadTo, Function.update_self, Function.update_self]

theorem leadTo_of_ne (way : FileHash × List PeerId) {id id' : Nat} (hne : q ≠ p ∨ id' ≠ id) :
    leadTo trail p id way q id' = trail q id' := by
  unfold leadTo
  by_cases hq : q = p
  · rw [hq, Function.update_self, Function.update_of_ne (hne.resolve_left (not_not.mpr hq))]
  · rw [Function.update_of_ne hq]

theorem eq_of_leadTo {way way' : FileHash × List PeerId} {id id' : Nat}
    (hway : leadTo trail p id way q id' = some way') :
    (q = p ∧ id' = id ∧ way' = way) ∨ trail q id' = some way' := by
  by_cases hhere : q = p ∧ id' = id
  · obtain ⟨rfl, rfl⟩ := hhere
    rw [leadTo_self] at hway
    exact Or.inl ⟨rfl, rfl, (Option.some.inj hway).symm⟩
  · rw [leadTo_of_ne way (not_and_or.mp hhere)] at hway
    exact Or.inr hway

theorem extends_leadTo {id : Nat} (way : FileHash × List PeerId) (hfresh : trail p id = none) :
    (s.ledger trail).Extends (s.ledger (leadTo trail p id way)) := by
  refine ⟨fun {q id' way'} hway => ?_, fun hmem => hmem, fun hmem => hmem⟩
  refine (leadTo_of_ne way ?_).trans hway
  by_contra hsame
  push Not at hsame
  obtain ⟨rfl, rfl⟩ := hsame
  rw [show (s.ledger trail).trail q id' = trail q id' from rfl, hfresh] at hway
  cases hway

/-- The network with the trail led on, before the call is made. A request of which a router still has to
hear must not be on its way then. -/
theorem Sound.leadTo (hsound : Sound net trail s) {id : Nat} (path : List PeerId)
    (hfresh : trail p id = none) (hnotZero : id ≠ 0) (hasked : hash ∈ net.hashes)
    (hnodup : (p :: path).Nodup) (hpeers : ∀ q ∈ p :: path, q ∈ net.peers)
    (hback : ∀ q rest, path = q :: rest → trail q id = some (hash, rest)) :
    TrailsLead net (s.ledger (leadTo trail p id (hash, path))) := by
  have hextends := extends_leadTo (s := s) (hash, path) hfresh
  have hcases : ∀ {q id' way}, (s.ledger (Tunnels.leadTo trail p id (hash, path))).trail q id' = some way →
      (q = p ∧ id' = id ∧ way = (hash, path)) ∨ (s.ledger trail).trail q id' = some way := eq_of_leadTo
  refine ⟨fun hway => ?_, fun hway => ?_, fun hway => ?_, fun hway => ?_, fun hway => ?_⟩
  · rcases hcases hway with ⟨-, rfl, -⟩ | hold
    · exact hnotZero
    · exact hsound.leads.notZero hold
  · rcases hcases hway with ⟨-, -, heq⟩ | hold
    · cases heq
      exact hasked
    · exact hsound.leads.asked hold
  · rcases hcases hway with ⟨rfl, -, heq⟩ | hold
    · cases heq
      exact hnodup
    · exact hsound.leads.nodup hold
  · rcases hcases hway with ⟨rfl, -, heq⟩ | hold
    · cases heq
      exact hpeers
    · exact hsound.leads.peers hold
  · rcases hcases hway with ⟨-, rfl, heq⟩ | hold
    · cases heq
      exact hextends.trail (hback _ _ rfl)
    · exact hextends.trail (hsound.leads.back hold)

/-- **A call that sends requests for one id**, after the trail has been led on to its router. -/
theorem Sound.act_request (hsound : Sound net trail s) {id : Nat} {way : FileHash × List PeerId}
    (hfresh : trail p id = none) (hids : id ∈ s.requestIds)
    (hleads : TrailsLead net (s.ledger (Tunnels.leadTo trail p id way)))
    (hrouter : Router net (s.ledger (Tunnels.leadTo trail p id way)) p (call (s.routers p)))
    (hremembers : Remembers (s.routers p) (call (s.routers p)))
    (hsent : ∀ sent ∈ (call (s.routers p)).sent, ∀ item, sent.2 = .openTunnel item →
      item.requestId = id)
    (hknown : (s.act p call).Pending id → id ∈ (call (s.routers p)).tunnelRequestsOrigins ∧
      ∀ q, trail q id ≠ none → id ∈ (s.routers q).tunnelRequestsOrigins) :
    Sound net (Tunnels.leadTo trail p id way) (s.act p call) := by
  have hcases : ∀ {q id'}, Tunnels.leadTo trail p id way q id' ≠ none →
      (q = p ∧ id' = id) ∨ trail q id' ≠ none := by
    intro q id' hne
    obtain ⟨way', hway⟩ := Option.ne_none_iff_exists'.mp hne
    rcases eq_of_leadTo hway with ⟨hq, hid, -⟩ | hold
    · exact Or.inl ⟨hq, hid⟩
    · exact Or.inr (Option.ne_none_iff_exists'.mpr ⟨way', hold⟩)
  refine hsound.act (extends_leadTo way hfresh) hleads hrouter (fun hne => ?_)
    fun {id'} hpending q htrail => ?_
  · rcases hcases hne with ⟨-, rfl⟩ | hold
    · exact hids
    · exact hsound.requestIds hold
  · by_cases hid : id' = id
    · subst hid
      obtain ⟨hhere, hthere⟩ := hknown hpending
      rcases hcases htrail with ⟨rfl, -⟩ | hold
      · unfold Network.act
        dsimp only
        rw [Function.update_self]
        exact hhere
      · exact remembers_act hremembers (hthere q hold)
    · have hold := (hcases htrail).resolve_left fun hboth => hid hboth.2
      rcases pending_act hpending with hbefore | ⟨sent, hmem, item, hitem, hid'⟩
      · exact remembers_act hremembers (hsound.pending hbefore q hold)
      · exact absurd (hid'.symm.trans (hsent sent hmem item hitem)) hid

/-! ### Steps -/

theorem Sound.diggTunnel (hsound : Sound net trail s) {env : Surroundings} {id : Nat}
    (hlawful : (Op.diggTunnel p env hash id).Lawful net s) :
    ∃ trail', Sound net trail'
      ({ s with requestIds := id :: s.requestIds }.act p (·.diggTunnel env hash id)) := by
  obtain ⟨hpeer, hnotZero, hunused, hmonitored, hpeers⟩ := hlawful
  have hfresh : ∀ q, trail q id = none := fun q => by
    by_contra hne
    exact hunused (hsound.requestIds hne)
  have hdrawn : Sound net trail { s with requestIds := id :: s.requestIds } :=
    { hsound with requestIds := fun hne => List.mem_cons_of_mem _ (hsound.requestIds hne) }
  obtain ⟨info, hinfo⟩ := Option.isSome_iff_exists.mp
    (Std.ExtTreeMap.mem_iff_isSome_getElem?.mp hmonitored)
  have hasked := ((hsound.routers p).hashes hinfo).1
  have hleads := hdrawn.leadTo [] (hfresh p) hnotZero hasked (List.nodup_singleton p)
    (fun q hq => (List.mem_singleton.mp hq).symm ▸ hpeer) (fun q rest heq => by cases heq)
  have hrouter := (hdrawn.router p).extend (extends_leadTo (hash, []) (hfresh p))
  obtain ⟨hdug, hremembers, hsent⟩ := hrouter.diggTunnel hleads (leadTo_self (hash, []) id) hmonitored
    hpeers
  have hnew : ∀ sent ∈ ((s.routers p).diggTunnel env hash id).sent,
      id ∈ ((s.routers p).diggTunnel env hash id).tunnelRequestsOrigins ∧
        ∀ other, sent.2 = .openTunnel other → other.requestId = id := by
    intro sent hmem
    refine (hsent sent hmem).resolve_left fun hold => ?_
    rw [show ({ s with requestIds := id :: s.requestIds } : Network).routers p = s.routers p from rfl,
      (hsound.idle p).1] at hold
    cases hold
  refine ⟨_, hdrawn.act_request (hfresh p) List.mem_cons_self hleads hdug hremembers
    (fun sent hmem item hitem => (hnew sent hmem).2 item hitem) fun hpending => ?_⟩
  refine ⟨?_, fun q hne => absurd (hfresh q) hne⟩
  rcases pending_act hpending with ⟨message, hmem, item, hitem, hid⟩ | ⟨sent, hmem, -⟩
  · have hholds := hsound.inFlight message hmem
    rw [hitem] at hholds
    obtain ⟨-, path, htrail, -⟩ := hholds
    rw [show (s.ledger trail).trail message.source item.requestId = trail message.source item.requestId
      from rfl, hid, hfresh] at htrail
    cases htrail
  · exact (hnew sent hmem).1

theorem Sound.openTunnel (hsound : Sound net trail s) {env : Surroundings} {i : Nat} {item : OpenTunnelItem}
    (hmessage : s.inFlight[i]? = some ⟨q, p, .openTunnel item⟩)
    (hpeers : ∀ q ∈ env.peersConnected, q ∈ net.peers) :
    ∃ trail', Sound net trail' ({ s with inFlight := s.inFlight.eraseIdx i }.act p
      (·.handleTunnelRequest env q item)) := by
  have herased := hsound.erase i
  by_cases hknown : item.requestId ∈ (s.routers p).tunnelRequestsOrigins
  · have hsame : (s.routers p).handleTunnelRequest env q item = s.routers p := by
      unfold TurtleRouter.handleTunnelRequest
      rw [if_pos hknown, ite_self]
    refine ⟨trail, herased.act_quiet ?_ ?_ ?_⟩
    · rw [hsame]
      exact herased.router p
    · rw [hsame]
      exact fun _ => id
    · rw [hsame]
      exact fun _ => Or.inl
  have hmem : (⟨q, p, .openTunnel item⟩ : Message) ∈ s.inFlight := List.mem_of_getElem? hmessage
  have hpending : s.Pending item.requestId := ⟨_, hmem, item, rfl, rfl⟩
  have hfresh : trail p item.requestId = none := by
    by_contra hne
    exact hknown (hsound.pending hpending p hne)
  obtain ⟨hpeer, path, htrail, hpartial⟩ := hsound.inFlight _ hmem
  have htrail : trail q item.requestId = some (item.fileHash, path) := htrail
  have hnotin : p ∉ q :: path := by
    intro hin
    have hway : ∀ (path : List PeerId) (q : PeerId), trail q item.requestId = some (item.fileHash, path) →
        p ∉ q :: path := by
      intro path
      induction path with
      | nil =>
          intro q htrail hin
          rw [← List.mem_singleton.mp hin, hfresh] at htrail
          cases htrail
      | cons previous path ih =>
          intro q htrail hin
          rcases List.mem_cons.mp hin with rfl | hin
          · rw [hfresh] at htrail
            cases htrail
          · exact ih previous (hsound.leads.back htrail) hin
    exact hway path q htrail hin
  have hleads := herased.leadTo (q :: path) hfresh (hsound.leads.notZero htrail)
    (hsound.leads.asked htrail) (List.nodup_cons.mpr ⟨hnotin, hsound.leads.nodup htrail⟩)
    (fun peer hin => (List.mem_cons.mp hin).elim (fun heq => heq ▸ hpeer)
      (hsound.leads.peers htrail peer))
    (fun q' rest heq => by cases heq; exact htrail)
  have hrouter := (herased.router p).extend (extends_leadTo (item.fileHash, q :: path) hfresh)
  have harrives : Arrives net ((({ s with inFlight := s.inFlight.eraseIdx i } : Network)).ledger
      (Tunnels.leadTo trail p item.requestId (item.fileHash, q :: path))) p q item :=
    ⟨q :: path, leadTo_self _ _, rfl, hpartial⟩
  obtain ⟨hhandled, hremembers, hnoted, hsent⟩ := hrouter.handleTunnelRequest hleads harrives hpeers
  rcases hnoted with hnoted | hsame
  · refine ⟨_, herased.act_request hfresh (hsound.requestIds (by rw [htrail]; exact Option.some_ne_none _))
      hleads hhandled hremembers (fun sent hin other heq => ?_) fun _ =>
        ⟨hnoted, fun q' hne => hsound.pending hpending q' hne⟩⟩
    refine (hsent sent hin).resolve_left (fun hold => ?_) other heq
    rw [(herased.idle p).1] at hold
    cases hold
  · refine ⟨trail, herased.act_quiet ?_ hremembers ?_⟩
    · exact hsame.symm ▸ herased.router p
    · exact hsame.symm ▸ fun _ => Or.inl

/-- **A step.** -/
theorem Sound.step (hsound : Sound net trail s) (hunique : net.Unique) (hlawful : op.Lawful net s)
    (hstep : s.step op = some s') : ∃ trail', Sound net trail' s' := by
  cases op with
  | diggTunnel peer env hash id =>
      obtain rfl := Option.some.inj hstep
      exact hsound.diggTunnel hlawful
  | monitorTunnels peer hash service allowMultiTunnels draw =>
      obtain rfl := Option.some.inj hstep
      refine ⟨trail, hsound.act_quiet ((hsound.router peer).monitorTunnels hlawful _ _ _) ?_ ?_⟩
      · unfold TurtleRouter.monitorTunnels
        dsimp only
        split <;> exact fun _ => id
      · unfold TurtleRouter.monitorTunnels
        dsimp only
        split <;> exact fun _ => Or.inl
  | stopMonitoringTunnels peer hash =>
      obtain rfl := Option.some.inj hstep
      have hrouter := hsound.router peer
      exact ⟨trail, hsound.act_quiet (hrouter.of_same { hrouter.tables with } rfl rfl) (fun _ => id)
        fun _ => Or.inl⟩
  | autoWash peer now =>
      obtain rfl := Option.some.inj hstep
      obtain ⟨hrouter, hsent, hforgets⟩ := (hsound.router peer).autoWash now
      refine ⟨trail, hsound.act Ledger.Extends.refl hsound.leads hrouter hsound.requestIds
        fun {id} hpending q htrail => ?_⟩
      have hbefore : s.Pending id := by
        refine (pending_act hpending).resolve_right ?_
        rintro ⟨sent, hmem, -⟩
        rw [hsent, (hsound.idle peer).1] at hmem
        cases hmem
      have hknown := hsound.pending hbefore q htrail
      unfold Network.act
      dsimp only
      by_cases hq : q = peer
      · subst hq
        rw [Function.update_self]
        obtain ⟨info, hinfo⟩ := Option.isSome_iff_exists.mp
          (Std.ExtTreeMap.mem_iff_isSome_getElem?.mp hknown)
        exact hforgets hinfo (hlawful id hbefore info hinfo)
      · rw [Function.update_of_ne hq]
        exact hknown
  | sendTurtleData peer now virtualPeer shouldStampTunnel data =>
      obtain rfl := Option.some.inj hstep
      have hmore : ∀ {entry}, entry ∈ s.given → entry ∈ s.given ++ [(peer, virtualPeer, data)] :=
        fun hmem => List.mem_append_left _ hmem
      have hextends : (s.ledger trail).Extends
          (({ s with given := s.given ++ [(peer, virtualPeer, data)] } : Network).ledger trail) :=
        ⟨id, hmore, id⟩
      have hgiven : Sound net trail { s with given := s.given ++ [(peer, virtualPeer, data)] } :=
        { hsound with
          leads := ⟨hsound.leads.notZero, hsound.leads.asked, hsound.leads.nodup, hsound.leads.peers,
            hsound.leads.back⟩
          routers := fun q => (hsound.routers q).mono hextends
          inFlight := fun message hmem => (hsound.inFlight message hmem).mono hextends
          calls := fun entry hentry => (hsound.calls entry hentry).mono hextends }
      obtain ⟨hrouter, hremembers, hquiet⟩ := (hgiven.router peer).sendTurtleData hunique hgiven.calls
        (List.mem_append_right _ List.mem_cons_self) now shouldStampTunnel
      exact ⟨trail, hgiven.act_quiet hrouter hremembers hquiet⟩
  | deliver i env =>
      obtain ⟨⟨source, target, item⟩, hmessage, rfl⟩ := Option.map_eq_some_iff.mp hstep
      have herased := hsound.erase i
      have hholds := hsound.inFlight _ (List.mem_of_getElem? hmessage)
      cases item with
      | openTunnel item => exact hsound.openTunnel hmessage hlawful
      | tunnelOk item =>
          obtain ⟨hrouter, hremembers, hquiet⟩ :=
            (herased.router target).handleTunnelResult herased.leads hunique hholds
          exact ⟨trail, herased.act_quiet hrouter hremembers hquiet⟩
      | generic item =>
          obtain ⟨direction, htravels⟩ := hholds
          obtain ⟨hrouter, hremembers, hquiet⟩ := (herased.router target).routeGenericTunnelItem hunique
            herased.calls htravels env.now
          exact ⟨trail, herased.act_quiet hrouter hremembers hquiet⟩
  | lose i =>
      obtain rfl := Option.some.inj hstep
      exact ⟨trail, hsound.erase i⟩

/-! ### Runs -/

/-- The service was told of a virtual peer. -/
def Network.Told (s : Network) (p : PeerId) (service : Option ServiceId) (hash : FileHash)
    (vpid : PeerId) (direction : Direction) : Prop :=
  (p, .addVirtualPeer service hash vpid direction) ∈ s.calls

theorem length_pairPeer (n : UInt8) : (List.replicate 16 n).length = 16 := List.length_replicate

def pairPeer (n : UInt8) : PeerId := ⟨List.replicate 16 n, length_pairPeer n⟩

theorem length_pairHash : (List.replicate 20 (9 : UInt8)).length = 20 := List.length_replicate

def pairHash : FileHash := ⟨List.replicate 20 9, length_pairHash⟩

theorem pairHash_notNull : nullFileHash ∉ ({pairHash} : Set FileHash) := by
  rw [Set.mem_singleton_iff]
  decide

def pair : Setting := ⟨fun _ => 0, {pairPeer 1, pairPeer 2}, {pairHash}, pairHash_notNull⟩

theorem pair_route {hash : FileHash} {route : List PeerId} {tid : Nat}
    (htunnel : pair.IsTunnel hash route tid) :
    route = [pairPeer 1, pairPeer 2] ∨ route = [pairPeer 2, pairPeer 1] := by
  have hpeers : ∀ peer ∈ route, peer = pairPeer 1 ∨ peer = pairPeer 2 := htunnel.peers
  have hnodup := htunnel.nodup
  obtain ⟨first, second, rest, rfl⟩ := exists_cons_cons htunnel.length
  have hfirst := hpeers first (by simp)
  have hsecond := hpeers second (by simp)
  have hrest : rest = [] := by
    rw [List.eq_nil_iff_forall_not_mem]
    intro third hthird
    have hlast := hpeers third (by simp [hthird])
    rw [List.nodup_cons, List.nodup_cons] at hnodup
    grind
  grind

theorem pair_unique : pair.Unique := by
  intro hash hash' route route' tid htunnel htunnel'
  have hhash : hash = pairHash := htunnel.asked
  have hhash' : hash' = pairHash := htunnel'.asked
  have hids : pair.tunnelId pairHash [pairPeer 1, pairPeer 2] ≠
      pair.tunnelId pairHash [pairPeer 2, pairPeer 1] := by
    decide +kernel
  subst hhash hhash'
  have heq := htunnel.eq.symm.trans htunnel'.eq
  refine ⟨rfl, ?_⟩
  rcases pair_route htunnel with rfl | rfl
  · rcases pair_route htunnel' with rfl | rfl
    · rfl
    · exact absurd heq hids
  · rcases pair_route htunnel' with rfl | rfl
    · exact absurd heq.symm hids
    · rfl

/-- What a router of the pair sees, with the other one connected. -/
def pairSurroundings (other : PeerId) (services : List ServiceId) : Surroundings where
  now := 10
  isHashBanned := fun _ => false
  registeredServices := services
  handleTunnelRequest := fun _ _ _ => true
  peersConnected := [other]
  linkType := fun _ => 0
  forwards := fun _ => true

def pairVpid : PeerId := virtualPeerId (pair.tunnelId pairHash [pairPeer 2, pairPeer 1])

/-- A tunnel is dug, and three bytes are sent through it. -/
def pairOps : List Op :=
  [.monitorTunnels (pairPeer 1) pairHash 5 false 3,
    .diggTunnel (pairPeer 1) (pairSurroundings (pairPeer 2) []) pairHash 42,
    .deliver 0 (pairSurroundings (pairPeer 1) [7]),
    .deliver 0 (pairSurroundings (pairPeer 2) []),
    .sendTurtleData (pairPeer 1) 11 pairVpid true [1, 2, 3],
    .deliver 0 (pairSurroundings (pairPeer 1) [7])]

def pairAfter (n : Nat) : Network :=
  (pairOps.take n).foldl (fun s op => (s.step op).getD s) (start pair)

theorem pair_step (n : Nat) (op : Op) (hop : pairOps[n]? = some op)
    (hsome : ((pairAfter n).step op).isSome = true) :
    (pairAfter n).step op = some (pairAfter (n + 1)) := by
  have htake : pairOps.take (n + 1) = pairOps.take n ++ [op] := by
    rw [List.take_add_one, hop]
    rfl
  rw [pairAfter, pairAfter, htake, List.foldl_append, List.foldl_cons, List.foldl_nil]
  obtain ⟨s', hs'⟩ := Option.isSome_iff_exists.mp hsome
  rw [pairAfter] at hs'
  rw [hs', Option.getD_some]

theorem pair_reaches :
    Reaches Network.step (fun s op => op.Lawful pair s) (start pair) (pairAfter 6) := by
  have hpeers : ∀ n : UInt8, pairPeer n ∈ pair.peers → ∀ services,
      ∀ q ∈ (pairSurroundings (pairPeer n) services).peersConnected, q ∈ pair.peers :=
    fun n hmem _ q hq => (List.mem_singleton.mp hq).symm ▸ hmem
  have hfirst := hpeers 1 (Or.inl rfl)
  have hsecond := hpeers 2 (Or.inr rfl)
  have hmonitored : pairHash ∈ ((pairAfter 1).routers (pairPeer 1)).incomingFileHashes := by
    decide +kernel
  have hdigg : (Op.diggTunnel (pairPeer 1) (pairSurroundings (pairPeer 2) []) pairHash 42).Lawful pair
      (pairAfter 1) := ⟨Or.inl rfl, by decide, by decide, hmonitored, hsecond []⟩
  refine ((((((Reaches.refl _).next _ ?_ (pair_step 0 _ rfl (by decide +kernel))).next _ hdigg
    (pair_step 1 _ rfl (by decide +kernel))).next _ ?_ (pair_step 2 _ rfl (by decide +kernel))).next _ ?_
    (pair_step 3 _ rfl (by decide +kernel))).next _ ?_ (pair_step 4 _ rfl (by decide +kernel))).next _ ?_
    (pair_step 5 _ rfl (by decide +kernel))
  · exact rfl
  · exact hfirst [7]
  · exact hsecond []
  · exact trivial
  · exact hfirst [7]

end RetroShare.Turtle.Tunnels
