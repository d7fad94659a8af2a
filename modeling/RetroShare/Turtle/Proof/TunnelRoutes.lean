import RetroShare.Turtle.Tunnels

/-!
# Routes of tunnels

The id of a tunnel is a function of the hash and of the routers from the source to the destination. As
long as it tells the routes of a network apart, a tunnel id stands for a route, and what a router keeps of
a tunnel is its place on the route.
-/

namespace RetroShare.Turtle.Tunnels

/-- What does not change in a network: the random biases, which routers there are, and which hashes are
asked for. -/
structure Setting where
  randomBias : PeerId → UInt32
  peers : Set PeerId
  hashes : Set FileHash
  notNull : nullFileHash ∉ hashes

/-! ### Ids -/

namespace Setting

variable (net : Setting)

/-- The partial tunnel id in the requests of a router. The routers before it are named from the latest to
the source. -/
def partialTunnelId (hash : FileHash) : PeerId → List PeerId → UInt32
  | peer, [] => generatePersonalFilePrint peer hash
      (generatePersonalFilePrint peer hash (net.randomBias peer) true ^^^ net.randomBias peer) true
  | peer, previous :: path => generatePersonalFilePrint peer hash
      (partialTunnelId hash previous path ^^^ net.randomBias peer) true

/-- The partial tunnel id in the request as it comes to a router. -/
def arrivingTunnelId (hash : FileHash) (peer : PeerId) : List PeerId → UInt32
  | [] => generatePersonalFilePrint peer hash (net.randomBias peer) true
  | previous :: path => net.partialTunnelId hash previous path

/-- The tunnel id of a route, which is named from the destination to the source. -/
def tunnelId (hash : FileHash) : List PeerId → Nat
  | destination :: peer :: path => (net.partialTunnelId hash peer path ^^^
      generatePersonalFilePrint destination hash (net.randomBias destination) false).toNat
  | _ => 0

/-- `tid` is the id of a tunnel that can be dug. -/
structure IsTunnel (hash : FileHash) (route : List PeerId) (tid : Nat) : Prop where
  asked : hash ∈ net.hashes
  nodup : route.Nodup
  peers : ∀ peer ∈ route, peer ∈ net.peers
  length : 2 ≤ route.length
  eq : tid = net.tunnelId hash route

/-- The tunnel ids of this network are unique. -/
def Unique : Prop :=
  ∀ {hash hash' route route' tid}, net.IsTunnel hash route tid → net.IsTunnel hash' route' tid →
    hash = hash' ∧ route = route'

end Setting

variable {net : Setting} {hash hash' : FileHash} {route route' before after : List PeerId}
  {tid tid' : Nat} {p q : PeerId}

theorem Setting.partialTunnelId_eq (path : List PeerId) : net.partialTunnelId hash p path =
    generatePersonalFilePrint p hash
      (net.arrivingTunnelId hash p path ^^^ net.randomBias p) true := by
  cases path <;> rfl

theorem exists_cons_cons (hlength : 2 ≤ route.length) : ∃ first second rest,
    route = first :: second :: rest := by
  cases route with
  | nil => exact absurd hlength (Nat.not_succ_le_zero 1)
  | cons first route =>
      cases route with
      | nil => exact absurd hlength (Nat.not_succ_le_self 1)
      | cons second rest => exact ⟨first, second, rest, rfl⟩

theorem Setting.IsTunnel.lt (htunnel : net.IsTunnel hash route tid) : tid < 2 ^ 32 := by
  obtain ⟨destination, peer, path, rfl⟩ := exists_cons_cons htunnel.length
  rw [htunnel.eq]
  exact UInt32.toNat_lt _

theorem virtualPeerId_inj (htid : tid < 2 ^ 32) (htid' : tid' < 2 ^ 32)
    (heq : virtualPeerId tid = virtualPeerId tid') : tid = tid' := by
  have hbytes := Subtype.mk.inj heq
  simp only [List.cons_append, List.cons.injEq, List.nil_append, and_true] at hbytes
  obtain ⟨h3, h2, h1, h0⟩ := hbytes
  have hbyte : ∀ n m : Nat, UInt8.ofNat n = UInt8.ofNat m → n % 256 = m % 256 := by
    intro n m hnm
    have := congrArg UInt8.toNat hnm
    rwa [UInt8.toNat_ofNat', UInt8.toNat_ofNat'] at this
  have h3 := hbyte _ _ h3
  have h2 := hbyte _ _ h2
  have h1 := hbyte _ _ h1
  have h0 := hbyte _ _ h0
  rw [Nat.shiftRight_eq_div_pow, Nat.shiftRight_eq_div_pow] at h1 h2 h3
  omega

/-- The virtual peers of two tunnels are different, or it is one tunnel. -/
theorem Setting.Unique.tunnel_eq (hunique : net.Unique) (htunnel : net.IsTunnel hash route tid)
    (htunnel' : net.IsTunnel hash' route' tid') (heq : virtualPeerId tid = virtualPeerId tid') :
    hash = hash' ∧ route = route' ∧ tid = tid' := by
  have htid := virtualPeerId_inj htunnel.lt htunnel'.lt heq
  subst htid
  obtain ⟨hhash, hroute⟩ := hunique htunnel htunnel'
  exact ⟨hhash, hroute, rfl⟩

/-! ### Places -/

/-- A router has one place on a route. -/
theorem place_unique {before' after' : List PeerId} (hnodup : (before ++ p :: after).Nodup)
    (heq : before ++ p :: after = before' ++ p :: after') : before = before' ∧ after = after' := by
  obtain ⟨_, hrest, hbefore⟩ := List.nodup_append.mp hnodup
  have habsent : p ∉ before := fun hmem => hbefore p hmem p List.mem_cons_self rfl
  obtain ⟨hsame, _, hafter⟩ :=
    (List.append_cons_inj_of_notMem habsent (List.nodup_cons.mp hrest).1).mp heq
  exact ⟨hsame, hafter⟩

/-- The router has the tunnel between its neighbours on the route. At the ends of the route it is its own
neighbour. -/
def Placed (net : Setting) (p : PeerId) (tid : Nat) (tunnel : TurtleTunnel) : Prop :=
  ∃ hash before after, net.IsTunnel hash (before ++ p :: after) tid ∧
    tunnel.localSrc = after.headD p ∧ tunnel.localDst = before.getLastD p

theorem Placed.at (hunique : net.Unique) {tunnel : TurtleTunnel} (hplaced : Placed net p tid tunnel)
    (htunnel : net.IsTunnel hash (before ++ p :: after) tid) :
    tunnel.localSrc = after.headD p ∧ tunnel.localDst = before.getLastD p := by
  obtain ⟨hash', before', after', htunnel', hsrc, hdst⟩ := hplaced
  obtain ⟨hbefore, hafter⟩ := place_unique htunnel.nodup (hunique htunnel htunnel').2
  rw [hbefore, hafter]
  exact ⟨hsrc, hdst⟩

theorem headD_eq_iff (hnodup : (before ++ p :: after).Nodup) : after.headD p = p ↔ after = [] := by
  cases after with
  | nil => exact ⟨fun _ => rfl, fun _ => rfl⟩
  | cons next rest =>
      rw [List.headD_cons]
      refine ⟨fun heq => ?_, fun heq => by cases heq⟩
      rw [heq] at hnodup
      exact absurd List.mem_cons_self (List.nodup_cons.mp (List.nodup_append.mp hnodup).2.1).1

theorem getLastD_eq_iff (hnodup : (before ++ p :: after).Nodup) :
    before.getLastD p = p ↔ before = [] := by
  cases before using List.reverseRecOn with
  | nil => exact ⟨fun _ => rfl, fun _ => rfl⟩
  | append_singleton rest previous _ =>
      rw [List.getLastD_concat]
      refine ⟨fun heq => ?_, fun heq => by simp at heq⟩
      rw [heq] at hnodup
      exact absurd rfl ((List.nodup_append.mp hnodup).2.2 p (by simp) p List.mem_cons_self)

end RetroShare.Turtle.Tunnels
