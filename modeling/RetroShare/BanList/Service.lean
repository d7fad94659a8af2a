import RetroShare.Foundation.OrderedMap
import RetroShare.Util.SockAddr

/-!
# The IP filter

`p3BanList` keeps two lists of address ranges set by the user, one of them also filled
automatically, and the banned addresses that this node and its friends have reported. All of them
are maps from IPv4 addresses: a range is filed under one address, with its masked bytes set to 255.
-/

namespace RetroShare.BanList

abbrev RsPeerId := Nat

/-! ### Constants -/

def originSelf : BitVec 32 := 1

def reasonUser : BitVec 32 := 1

def reasonDht : BitVec 32 := 2

def reasonAutoRange : BitVec 32 := 3

def typeBlacklist : Nat := 2

def typeWhitelist : Nat := 3

def checkingFlagsBlacklist : BitVec 32 := 0x01

def checkingFlagsWhitelist : BitVec 32 := 0x02

/-- `RSBANLIST_ENTRY_MAX_AGE`, in seconds. -/
def entryMaxAge : Int := 60 * 60 * 24

inductive CheckResult
  | noCheck
  | blacklisted
  | notWhitelisted
  | accepted
  deriving DecidableEq, Repr

/-! ### State -/

structure BanListPeer where
  addr : Ipv4
  reason : BitVec 32
  level : BitVec 32
  connectAttempts : Int
  mTs : Int

/-- `BanList`: what one peer has reported. -/
structure Source where
  mLastUpdate : Int
  mBanPeers : OrderedMap Ipv4 BanListPeer

structure Service where
  ownId : RsPeerId
  mBanSources : OrderedMap RsPeerId Source
  mBanSet : OrderedMap Ipv4 BanListPeer
  mBanRanges : OrderedMap Ipv4 BanListPeer
  mWhiteListedRanges : OrderedMap Ipv4 BanListPeer
  mAutoRangeLimit : BitVec 32
  mAutoRangeIps : Bool
  mIPFilteringEnabled : Bool
  mIPFriendGatheringEnabled : Bool
  mIPDHTGatheringEnabled : Bool

def Service.new (ownId : RsPeerId) : Service where
  ownId := ownId
  mBanSources := ∅
  mBanSet := ∅
  mBanRanges := ∅
  mWhiteListedRanges := ∅
  mAutoRangeLimit := 100
  mAutoRangeIps := false
  mIPFilteringEnabled := true
  mIPFriendGatheringEnabled := false
  mIPDHTGatheringEnabled := false

/-! ### Ranges -/

/-- How many trailing bytes of the address are 255. -/
def getBitRange (addr : Ipv4) : Nat :=
  if addr.d ≠ 255 then 0
  else if addr.c ≠ 255 then 1
  else if addr.b ≠ 255 then 2
  else if addr.a ≠ 255 then 3
  else 4

/-- Other mask sizes only cause a warning. -/
def makeBitsRange (addr : Ipv4) (maskedBytes : Int) : Ipv4 :=
  if maskedBytes = 1 then { addr with d := 255 }
  else if maskedBytes = 2 then { addr with c := 255, d := 255 }
  else addr

/-! ### The set of banned addresses -/

def Service.isWhiteListed (service : Service) (addr : Ipv4) : Bool :=
  service.mWhiteListedRanges[makeBitsRange addr 0]?.isSome ||
    service.mWhiteListedRanges[makeBitsRange addr 1]?.isSome ||
    service.mWhiteListedRanges[makeBitsRange addr 2]?.isSome

/-- One entry of one source enters `mBanSet`. -/
def Service.condenseEntry (service : Service) (now : Int) (peerId : RsPeerId)
    (banSet : OrderedMap Ipv4 BanListPeer) (entry : BanListPeer) : OrderedMap Ipv4 BanListPeer :=
  if entryMaxAge + entry.mTs < now then banSet
  else
    let lvl := if peerId ≠ service.ownId then entry.level + 1 else entry.level
    if service.isWhiteListed entry.addr then banSet
    else
      match banSet[entry.addr]? with
      | none => banSet.insert entry.addr { entry with level := lvl }
      | some known =>
          if lvl < known.level then banSet.insert entry.addr { entry with level := lvl }
          else if lvl = known.level then
            banSet.insert entry.addr
              { known with reason := known.reason ||| entry.reason, mTs := max known.mTs entry.mTs }
          else banSet

def Service.condenseSource (service : Service) (now : Int) (banSet : OrderedMap Ipv4 BanListPeer)
    (source : RsPeerId × Source) : OrderedMap Ipv4 BanListPeer :=
  if entryMaxAge < now - source.2.mLastUpdate then banSet
  else
    source.2.mBanPeers.toList.foldl
      (fun banSet entry => service.condenseEntry now source.1 banSet entry.2) banSet

def Service.condenseBanSources (service : Service) (now : Int) : Service :=
  { service with
    mBanSet := service.mBanSources.toList.foldl (service.condenseSource now) ∅ }

/-- `true` when the report is new, with the service that has taken it in. -/
def Service.addBanEntry (service : Service) (now : Int) (peerId : RsPeerId) (dAddr : SockAddr)
    (level reason : BitVec 32) (timeStamp : Int) : Bool × Service :=
  match dAddr.ipv6ToIpv4 with
  | none => (false, service)
  | some (addr, _) =>
      if !addr.isExternalNet then (false, service)
      else
        let found := service.mBanSources[peerId]?
        let source := found.getD ⟨now, ∅⟩
        let report (attempts : Int) : Service :=
          let entry : BanListPeer := ⟨addr, reason, level, attempts, timeStamp⟩
          { service with
            mBanSources := service.mBanSources.insert peerId
              ⟨now, source.mBanPeers.insert addr entry⟩ }
        match source.mBanPeers[addr]? with
        | none => (true, report 0)
        | some known =>
            if known.reason ≠ reason ∨ known.level ≠ level ∨ known.mTs < timeStamp then
              (true, report known.connectAttempts)
            else (false, service)

/-! ### Automatic ranges -/

/-- How many entries of `mBanSet` fall under each key of a /24. -/
def Service.rangeMap (service : Service) : OrderedMap Ipv4 Nat :=
  service.mBanSet.toList.foldl
    (fun counts entry =>
      let range := makeBitsRange entry.1 1
      counts.insert range (counts[range]?.getD 0 + 1))
    ∅

/-- One entry of `range_map` becomes a range. -/
def Service.createRange (service : Service) (now : Int) (banRanges : OrderedMap Ipv4 BanListPeer)
    (entry : Ipv4 × Nat) : OrderedMap Ipv4 BanListPeer :=
  if entry.2 < service.mAutoRangeLimit.toNat then banRanges
  else if (banRanges[entry.1]?.map (·.reason)) = some reasonUser then banRanges
  else banRanges.insert entry.1 ⟨entry.1, reasonAutoRange, originSelf, entry.2, now⟩

/-- Clear automatic ban ranges. -/
def Service.clearAutoRanges (service : Service) : Service :=
  { service with
    mBanRanges := service.mBanRanges.filter fun _ peer => peer.reason ≠ reasonAutoRange }

def Service.createRanges (service : Service) (now : Int) : Service :=
  { service with
    mBanRanges := service.rangeMap.toList.foldl (service.createRange now) service.mBanRanges }

def Service.autoFigureOutBanRanges (service : Service) (now : Int) : Service :=
  let service := service.clearAutoRanges
  if !service.mAutoRangeIps then service
  else (service.createRanges now).condenseBanSources now

def Service.enableAutoRange (service : Service) (now : Int) (b : Bool) : Service :=
  { service with mAutoRangeIps := b }.autoFigureOutBanRanges now

def Service.setAutoRangeLimit (service : Service) (now : Int) (n : BitVec 32) : Service :=
  { service with mAutoRangeLimit := n }.autoFigureOutBanRanges now

/-! ### The user's ranges -/

/-- Ranges of the address that are included in the new one go first. -/
def addRange (banlist : OrderedMap Ipv4 BanListPeer) (addr : Ipv4) (maskedBytes : Nat)
    (peer : BanListPeer) : OrderedMap Ipv4 BanListPeer :=
  ((List.range maskedBytes).foldl
    (fun banlist index => banlist.erase (makeBitsRange addr index)) banlist).insert
      (makeBitsRange addr maskedBytes) peer

/-- The user's own checks of a range, on the address and the mask size. -/
def rangeAccepted (addr : Ipv4) (maskedBytes : Int) : Bool :=
  getBitRange addr ≤ (BitVec.ofInt 32 maskedBytes).toNat &&
    (maskedBytes = 0 || maskedBytes = 1 || maskedBytes = 2)

def Service.addIpRange (service : Service) (now : Int) (dAddr : SockAddr) (maskedBytes : Int)
    (listType : Nat) : Bool × Service :=
  match dAddr.ipv6ToIpv4 with
  | none => (false, service)
  | some (addr, _) =>
      if !rangeAccepted addr maskedBytes then (false, service)
      else
        let peer : BanListPeer := ⟨addr, reasonUser, originSelf, 0, now⟩
        if listType = typeBlacklist then
          (true, { service with
            mBanRanges := addRange service.mBanRanges addr maskedBytes.toNat peer
            }.condenseBanSources now)
        else if listType = typeWhitelist then
          (true, { service with
            mWhiteListedRanges := addRange service.mWhiteListedRanges addr maskedBytes.toNat peer
            }.condenseBanSources now)
        else (false, service)

def Service.removeIpRange (service : Service) (now : Int) (dAddr : SockAddr) (maskedBytes : Int)
    (listType : Nat) : Bool × Service :=
  match dAddr.ipv6ToIpv4 with
  | none => (false, service)
  | some (addr, _) =>
      let range := makeBitsRange addr maskedBytes
      if listType = typeBlacklist then
        (service.mBanRanges[range]?.isSome,
          { service with mBanRanges := service.mBanRanges.erase range }.condenseBanSources now)
      else if listType = typeWhitelist then
        (service.mWhiteListedRanges[range]?.isSome,
          { service with mWhiteListedRanges := service.mWhiteListedRanges.erase range
            }.condenseBanSources now)
      else (false, service.condenseBanSources now)

/-! ### Decisions -/

def Service.acceptedBanSet (service : Service) (blp : BanListPeer) : Bool :=
  if 1 < blp.level ∧ service.mIPFriendGatheringEnabled then true
  else if blp.reason = reasonUser then true
  else if blp.reason = reasonDht then service.mIPDHTGatheringEnabled && blp.level = 1
  else false

def Service.acceptedBanRanges (service : Service) (blp : BanListPeer) : Bool :=
  if blp.reason = reasonUser then true
  else if blp.reason = reasonAutoRange then service.mAutoRangeIps
  else false

/-- The entry under that key, if there is one and it counts. -/
def Service.bannedRange? (service : Service) (range : Ipv4) : Option BanListPeer :=
  service.mBanRanges[range]?.filter service.acceptedBanRanges

def Service.bannedAddress? (service : Service) (addr : Ipv4) : Option BanListPeer :=
  service.mBanSet[addr]?.filter service.acceptedBanSet

/-- `++it->second.connect_attempts` -/
def BanListPeer.attempt (peer : BanListPeer) : BanListPeer :=
  { peer with connectAttempts := peer.connectAttempts + 1 }

/-- The decision, `*check_result` unless it is left alone, and the service with its counters. -/
def Service.isAddressAccepted (service : Service) (dAddr : SockAddr) (checkingFlags : BitVec 32) :
    Bool × Option CheckResult × Service :=
  if !service.mIPFilteringEnabled then (true, none, service)
  else
    match dAddr.ipv6ToIpv4 with
    | none => (true, some .noCheck, service)
    | some (addr, _) =>
        if addr.isLoopbackNet then (true, some .noCheck, service)
        else if service.isWhiteListed addr then (true, some .accepted, service)
        else if checkingFlags &&& checkingFlagsWhitelist ≠ 0 then
          (false, some .notWhitelisted, service)
        else if checkingFlags &&& checkingFlagsBlacklist = 0 then (true, some .accepted, service)
        else
          -- the widest range first
          match [makeBitsRange addr 2, makeBitsRange addr 1, makeBitsRange addr 0].findSome?
            (fun range => (service.bannedRange? range).map fun peer => (range, peer)) with
          | some (range, peer) =>
              (false, some .blacklisted,
                { service with mBanRanges := service.mBanRanges.insert range peer.attempt })
          | none =>
              match service.bannedAddress? addr with
              | some peer =>
                  (false, some .blacklisted,
                    { service with mBanSet := service.mBanSet.insert addr peer.attempt })
              | none => (true, some .accepted, service)

/-! ### Reports -/

/-- `RsTlvBanListEntry` -/
structure BanListEntry where
  addr : SockAddr
  level : BitVec 32
  reason : BitVec 32
  age : BitVec 32

/-- The entries of one item, in order; `true` when some entry was new. -/
def Service.recvBanItem (service : Service) (now : Int) (peerId : RsPeerId)
    (entries : List BanListEntry) : Bool × Service :=
  entries.foldl
    (fun (updated, service) entry =>
      let (new, service) :=
        service.addBanEntry now peerId entry.addr entry.level entry.reason (now - entry.age.toNat)
      (new || updated, service))
    (false, service)

/-- The items that have arrived, in order. -/
def Service.recvBanItems (service : Service) (now : Int)
    (items : List (RsPeerId × List BanListEntry)) : Bool × Service :=
  items.foldl
    (fun (updated, service) item =>
      let (new, service) := service.recvBanItem now item.1 item.2
      (new || updated, service))
    (false, service)

def Service.processIncoming (service : Service) (now : Int)
    (items : List (RsPeerId × List BanListEntry)) : Service :=
  let (updated, service) := service.recvBanItems now items
  if updated then service.condenseBanSources now else service

/-- `getDhtInfo`, for the addresses that the DHT has filtered out and when it last saw them. -/
def Service.getDhtInfo (service : Service) (now : Int) (filteredPeers : List (Ipv4 × Int)) :
    Service :=
  (filteredPeers.foldl
    (fun service peer =>
      (service.addBanEntry now service.ownId (.inet peer.1 0) originSelf reasonDht peer.2).2)
    service).condenseBanSources now

def Service.updatePeer (service : Service) (now : Int) (dAddr : SockAddr) (timeStamp : Int) :
    Service :=
  match dAddr.ipv6ToIpv4 with
  | none => service
  | some _ =>
      (service.addBanEntry now service.ownId dAddr originSelf reasonDht timeStamp).2.condenseBanSources
        now

/-! ### Runs -/

/-- The calls that change the filter, each with the time at which it is made. -/
inductive Op
  | addIpRange (now : Int) (addr : SockAddr) (maskedBytes : Int) (listType : Nat)
  | removeIpRange (now : Int) (addr : SockAddr) (maskedBytes : Int) (listType : Nat)
  | addBanEntry (now : Int) (peerId : RsPeerId) (addr : SockAddr) (level reason : BitVec 32)
      (timeStamp : Int)
  | enableAutoRange (now : Int) (b : Bool)
  | setAutoRangeLimit (now : Int) (n : BitVec 32)
  | autoFigureOutBanRanges (now : Int)
  | isAddressAccepted (addr : SockAddr) (checkingFlags : BitVec 32)
  | processIncoming (now : Int) (items : List (RsPeerId × List BanListEntry))
  | getDhtInfo (now : Int) (filteredPeers : List (Ipv4 × Int))
  | updatePeer (now : Int) (addr : SockAddr) (timeStamp : Int)
  | enableIPFiltering (b : Bool)
  | enableIPsFromFriends (b : Bool)
  | enableIPsFromDHT (b : Bool)

def Service.run (service : Service) : Op → Service
  | .addIpRange now addr maskedBytes listType => (service.addIpRange now addr maskedBytes listType).2
  | .removeIpRange now addr maskedBytes listType =>
      (service.removeIpRange now addr maskedBytes listType).2
  | .addBanEntry now peerId addr level reason timeStamp =>
      (service.addBanEntry now peerId addr level reason timeStamp).2
  | .enableAutoRange now b => service.enableAutoRange now b
  | .setAutoRangeLimit now n => service.setAutoRangeLimit now n
  | .autoFigureOutBanRanges now => service.autoFigureOutBanRanges now
  | .isAddressAccepted addr checkingFlags => (service.isAddressAccepted addr checkingFlags).2.2
  | .processIncoming now items => service.processIncoming now items
  | .getDhtInfo now filteredPeers => service.getDhtInfo now filteredPeers
  | .updatePeer now addr timeStamp => service.updatePeer now addr timeStamp
  | .enableIPFiltering b => { service with mIPFilteringEnabled := b }
  | .enableIPsFromFriends b => { service with mIPFriendGatheringEnabled := b }
  | .enableIPsFromDHT b => { service with mIPDHTGatheringEnabled := b }

end RetroShare.BanList
