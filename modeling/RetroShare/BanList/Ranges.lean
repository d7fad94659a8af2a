import RetroShare.BanList.Service
import RetroShare.Foundation.Transition

/-!
# Lists of address ranges

What the filter is meant to do, said of ranges themselves: a range is a set of addresses given by a
prefix, two lists hold ranges, and a range is listed until it is removed or a wider range of the
same address takes its place. The service files a range under one address instead; `key` is that
address, and `Plain` ranges are those that no other range shares it with.
-/

namespace RetroShare.BanList

/-- A /32, a /24 or a /16. -/
inductive IpRange
  | host (addr : Ipv4)
  | net24 (a b c : UInt8)
  | net16 (a b : UInt8)
  deriving DecidableEq

namespace IpRange

def Contains : IpRange → Ipv4 → Prop
  | host addr, x => x = addr
  | net24 a b c, x => x.a = a ∧ x.b = b ∧ x.c = c
  | net16 a b, x => x.a = a ∧ x.b = b

instance (range : IpRange) (x : Ipv4) : Decidable (range.Contains x) := by
  cases range <;> unfold Contains <;> infer_instance

/-- The range of that mask size around an address. -/
def around (addr : Ipv4) : Nat → IpRange
  | 0 => host addr
  | 1 => net24 addr.a addr.b addr.c
  | _ => net16 addr.a addr.b

/-- The mask sizes that make a range. -/
def maskOf (maskedBytes : Int) : Option Nat :=
  if maskedBytes = 0 then some 0
  else if maskedBytes = 1 then some 1
  else if maskedBytes = 2 then some 2
  else none

/-- The address under which the service files the range. -/
def key : IpRange → Ipv4
  | host addr => addr
  | net24 a b c => ⟨a, b, c, 255⟩
  | net16 a b => ⟨a, b, 255, 255⟩

/-- The last byte that the range fixes is not 255; always so for a /16. -/
def Plain : IpRange → Prop
  | host addr => addr.d ≠ 255
  | net24 _ _ c => c ≠ 255
  | net16 _ _ => True

instance (range : IpRange) : Decidable range.Plain := by
  cases range <;> unfold Plain <;> infer_instance

/-- The plain range filed under an address. -/
def ofKey (k : Ipv4) : IpRange :=
  if k.d ≠ 255 then host k
  else if k.c ≠ 255 then net24 k.a k.b k.c
  else net16 k.a k.b

theorem plain_ofKey (k : Ipv4) : (ofKey k).Plain := by
  unfold ofKey
  split
  · assumption
  · split
    · assumption
    · trivial

theorem key_ofKey (k : Ipv4) : (ofKey k).key = k := by
  unfold ofKey
  split
  · rfl
  · next hd =>
      split
      · ext <;> simp_all [key]
      · ext <;> simp_all [key]

theorem ofKey_key {range : IpRange} (hplain : range.Plain) : ofKey range.key = range := by
  cases range with
  | host addr => exact if_pos hplain
  | net24 a b c =>
      have hc : c ≠ 255 := hplain
      simp [ofKey, key, hc]
  | net16 a b => simp [ofKey, key]

theorem key_inj {r s : IpRange} (hr : r.Plain) (hs : s.Plain) (heq : r.key = s.key) : r = s := by
  rw [← ofKey_key hr, heq, ofKey_key hs]

theorem key_around (addr : Ipv4) {mask : Nat} (hmask : mask ≤ 2) :
    (around addr mask).key = makeBitsRange addr mask := by
  obtain rfl | rfl | rfl : mask = 0 ∨ mask = 1 ∨ mask = 2 := by omega
  · rfl
  · rfl
  · rfl

/-- The three lookups of an address are those of the plain ranges that contain it. -/
theorem contains_iff {range : IpRange} (hplain : range.Plain) (x : Ipv4) :
    range.Contains x ↔
      range.key = makeBitsRange x 2 ∨ range.key = makeBitsRange x 1 ∨
        range.key = makeBitsRange x 0 := by
  cases range with
  | host addr =>
      have hd : addr.d ≠ 255 := hplain
      simp only [Contains, key, makeBitsRange, Ipv4.ext_iff]
      constructor
      · rintro ⟨ha, hb, hc, hd⟩
        simp [ha, hb, hc, hd]
      · rintro (h | h | h)
        · exact absurd h.2.2.2 hd
        · exact absurd h.2.2.2 hd
        · simpa [eq_comm] using h
  | net24 a b c =>
      have hc : c ≠ 255 := hplain
      simp only [Contains, key, makeBitsRange, Ipv4.ext_iff]
      constructor
      · rintro ⟨ha, hb, hc⟩
        simp [ha, hb, hc]
      · rintro (h | h | h)
        · exact absurd h.2.2.1 hc
        · exact ⟨h.1.symm, h.2.1.symm, h.2.2.1.symm⟩
        · exact ⟨h.1.symm, h.2.1.symm, h.2.2.1.symm⟩
  | net16 a b =>
      simp only [Contains, key, makeBitsRange, Ipv4.ext_iff]
      constructor
      · rintro ⟨ha, hb⟩
        simp [ha, hb]
      · rintro (h | h | h) <;> exact ⟨h.1.symm, h.2.1.symm⟩

end IpRange

/-! ### Lists -/

inductive Origin
  | user
  | auto
  deriving DecidableEq

/-- The listed ranges and who listed them. -/
abbrev RangeList := IpRange → Option Origin

namespace RangeList

def empty : RangeList := fun _ => none

/-- The range of that mask size around the address, instead of the narrower ones around it. -/
def add (list : RangeList) (addr : Ipv4) (mask : Nat) : RangeList := fun range =>
  if range = IpRange.around addr mask then some .user
  else if ∃ narrower < mask, range = IpRange.around addr narrower then none
  else list range

def remove (list : RangeList) (removed : IpRange) : RangeList := fun range =>
  if range = removed then none else list range

/-- Automatic ranges are dropped, and listed anew where `crowded` says so. The user's stay. -/
def figureOut (list : RangeList) (crowded : IpRange → Prop) [DecidablePred crowded] : RangeList :=
  fun range =>
    if list range = some .user then some .user
    else if crowded range then some .auto
    else none

end RangeList

/-- Banned addresses that a range contains. -/
def Service.bannedIn (service : Service) (range : IpRange) : Nat :=
  (service.mBanSet.toList.filter fun entry => range.Contains entry.1).length

/-- A /24 with banned addresses, and no fewer than the limit. -/
def Service.Crowded (service : Service) : IpRange → Prop
  | .net24 a b c => 0 < service.bannedIn (.net24 a b c) ∧
      service.mAutoRangeLimit.toNat ≤ service.bannedIn (.net24 a b c)
  | _ => False

instance (service : Service) : DecidablePred service.Crowded := by
  intro range
  cases range <;> unfold Service.Crowded <;> infer_instance

/-- The two lists. -/
structure Listed where
  white : RangeList
  black : RangeList

/-- What `autoFigureOutBanRanges` is for, given the service it starts from. -/
def Listed.autoFigureOut (listed : Listed) (service : Service) : Listed :=
  { listed with
    black := listed.black.figureOut fun range => service.mAutoRangeIps ∧ service.Crowded range }

/-- What each call is for, in terms of ranges, given the service before it. -/
def Listed.run (listed : Listed) (service : Service) : Op → Listed
  | .addIpRange _ dAddr maskedBytes listType =>
      match dAddr.ipv6ToIpv4, IpRange.maskOf maskedBytes with
      | some (addr, _), some mask =>
          if !rangeAccepted addr maskedBytes then listed
          else if listType = typeBlacklist then { listed with black := listed.black.add addr mask }
          else if listType = typeWhitelist then { listed with white := listed.white.add addr mask }
          else listed
      | _, _ => listed
  | .removeIpRange _ dAddr maskedBytes listType =>
      match dAddr.ipv6ToIpv4, IpRange.maskOf maskedBytes with
      | some (addr, _), some mask =>
          if listType = typeBlacklist then
            { listed with black := listed.black.remove (.around addr mask) }
          else if listType = typeWhitelist then
            { listed with white := listed.white.remove (.around addr mask) }
          else listed
      | _, _ => listed
  | .enableAutoRange _ b => listed.autoFigureOut { service with mAutoRangeIps := b }
  | .setAutoRangeLimit _ n => listed.autoFigureOut { service with mAutoRangeLimit := n }
  | .autoFigureOutBanRanges _ => listed.autoFigureOut service
  | _ => listed

/-- The service, watched by somebody who keeps the two lists. -/
structure Watched where
  service : Service
  listed : Listed

def Watched.new (ownId : RsPeerId) : Watched := ⟨.new ownId, ⟨.empty, .empty⟩⟩

def Watched.step (watched : Watched) (op : Op) : Option Watched :=
  some ⟨watched.service.run op, watched.listed.run watched.service op⟩

/-- A blacklisted range counts: the user's always, an automatic one while these are switched on. -/
def Watched.InEffect (watched : Watched) (range : IpRange) : Prop :=
  watched.listed.black range = some .user ∨
    (watched.listed.black range = some .auto ∧ watched.service.mAutoRangeIps)

/-- An address passes if it is whitelisted, or in no blacklisted range and not banned itself. -/
def Watched.Passes (watched : Watched) (addr : Ipv4) : Prop :=
  (∃ range, watched.listed.white range ≠ none ∧ range.Contains addr) ∨
    ((∀ range, range.Contains addr → ¬ watched.InEffect range) ∧
      ∀ peer, watched.service.mBanSet[addr]? = some peer → ¬ watched.service.acceptedBanSet peer)

/-- The decisions are those of the two lists. -/
def Watched.DecidesByRanges (watched : Watched) : Prop :=
  watched.service.mIPFilteringEnabled →
    ∀ (dAddr : SockAddr) (addr : Ipv4) (port : BitVec 16),
      dAddr.ipv6ToIpv4 = some (addr, port) → ¬ addr.isLoopbackNet →
        ((watched.service.isAddressAccepted dAddr checkingFlagsBlacklist).1 = true ↔
          watched.Passes addr)

end RetroShare.BanList
