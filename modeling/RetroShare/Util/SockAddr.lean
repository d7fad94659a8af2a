import Mathlib.Tactic

/-!
# Socket addresses

The parts of `sockaddr_storage` that the address functions look at: the family, the address and the
port. An address of another family is told apart from these two and no more.
-/

namespace RetroShare

/-- An IPv4 address in the order of the dotted form. On a little-endian machine the top byte of
`s_addr` is `d`. -/
@[ext]
structure Ipv4 where
  a : UInt8
  b : UInt8
  c : UInt8
  d : UInt8
  deriving DecidableEq, Repr

/-- `s_addr` on a little-endian machine. -/
def Ipv4.sAddr (ip : Ipv4) : Nat :=
  ip.a.toNat + 2 ^ 8 * ip.b.toNat + 2 ^ 16 * ip.c.toNat + 2 ^ 24 * ip.d.toNat

theorem Ipv4.sAddr_injective : Function.Injective Ipv4.sAddr := by
  intro x y heq
  have hbounds := And.intro (UInt8.toNat_lt x.a) (UInt8.toNat_lt y.a)
  have hbounds' := And.intro (UInt8.toNat_lt x.b) (UInt8.toNat_lt y.b)
  have hbounds'' := And.intro (UInt8.toNat_lt x.c) (UInt8.toNat_lt y.c)
  simp only [Ipv4.sAddr] at heq
  ext <;> omega

/-- `sockaddr_storage_ipv4_lessthan` at equal ports. -/
instance : LinearOrder Ipv4 := LinearOrder.lift' Ipv4.sAddr Ipv4.sAddr_injective

/-- `s6_addr16`, each word read in network order. -/
abbrev Ipv6 := Fin 8 → BitVec 16

inductive SockAddr
  | inet (ip : Ipv4) (port : BitVec 16)
  | inet6 (ip : Ipv6) (port : BitVec 16)
  | other (family : Nat)

/-- The two bytes of a word in memory. -/
def highByte (word : BitVec 16) : UInt8 := UInt8.ofNat (word.toNat / 2 ^ 8)

def lowByte (word : BitVec 16) : UInt8 := UInt8.ofNat word.toNat

/-- `sockaddr_storage_ipv6_to_ipv4`: the IPv4 address and port, if there is one. -/
def SockAddr.ipv6ToIpv4 : SockAddr → Option (Ipv4 × BitVec 16)
  | inet ip port => some (ip, port)
  | inet6 ip port =>
      if ip 5 = 0xffff ∧ ∀ i : Fin 5, ip (i.castLE (by decide)) = 0 then
        some (⟨highByte (ip 6), lowByte (ip 6), highByte (ip 7), lowByte (ip 7)⟩, port)
      else none
  | other _ => none

/-! ### Kinds of IPv4 address -/

/-- `isValidNet`: neither `INADDR_NONE` nor null. -/
def Ipv4.isValidNet (ip : Ipv4) : Bool :=
  ip ≠ ⟨255, 255, 255, 255⟩ && ip ≠ ⟨0, 0, 0, 0⟩

def Ipv4.isLoopbackNet (ip : Ipv4) : Bool := ip = ⟨127, 0, 0, 1⟩

def Ipv4.isPrivateNet (ip : Ipv4) : Bool :=
  ip.a = 10 || (ip.a = 172 && ip.b / 16 = 1) || (ip.a = 192 && ip.b = 168) ||
    (ip.a = 169 && ip.b = 254)

def Ipv4.isExternalNet (ip : Ipv4) : Bool :=
  ip.isValidNet && !ip.isLoopbackNet && !ip.isPrivateNet

end RetroShare
