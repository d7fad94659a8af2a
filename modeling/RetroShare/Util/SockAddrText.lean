import RetroShare.Util.RsUrl
import RetroShare.Util.SockAddr

/-!
# Socket addresses as text

The printed form of a socket address is a URL. The functions of the C library that convert between
addresses and texts are arguments.
-/

namespace RetroShare

instance (priority := 2000) neZeroIpv6 : NeZero (7 + 1) := ⟨by decide⟩

/-- `inet_ntop` for IPv6 addresses, and `inet_pton` for both families. -/
structure Inet where
  ntop6 : Ipv6 → Str
  pton6 : Str → Option Ipv6
  pton4 : Str → Option Ipv4

/-- `rs_inet_ntoa` -/
def Ipv4.ntoa (ip : Ipv4) : Str :=
  RsUrl.decimal ip.a.toNat ++ ascii "." ++ RsUrl.decimal ip.b.toNat ++ ascii "." ++
    RsUrl.decimal ip.c.toNat ++ ascii "." ++ RsUrl.decimal ip.d.toNat

/-- `sockaddr_storage_ipv4_to_ipv6` -/
def Ipv4.toIpv6 (ip : Ipv4) : Ipv6 := fun i =>
  if i = 5 then 0xffff
  else if i = 6 then BitVec.ofNat 16 (2 ^ 8 * ip.a.toNat + ip.b.toNat)
  else if i = 7 then BitVec.ofNat 16 (2 ^ 8 * ip.c.toNat + ip.d.toNat)
  else 0

/-- `sockaddr_storage_inet_pton` -/
def Inet.pton (inet : Inet) (ipStr : Str) : Option Ipv6 :=
  (inet.pton6 ipStr).or ((inet.pton4 ipStr).map Ipv4.toIpv6)

/-- The URL of a socket address. -/
def endpointUrl (scheme host : Str) (port : BitVec 16) : RsUrl :=
  { RsUrl.ofScheme scheme with host := host, port := some (UInt16.ofBitVec port) }

/-- `sockaddr_storage_tostring` -/
def SockAddr.toText (inet : Inet) : SockAddr → Str
  | .inet ip port => (endpointUrl (ascii "ipv4") ip.ntoa port).toString
  | .inet6 ip port => (endpointUrl (ascii "ipv6") (inet.ntop6 ip) port).toString
  | .other _ => ascii "AF_INVALID"

/-- `sockaddr_storage_fromString`, where the address held that port before. -/
def SockAddr.ofText (inet : Inet) (str : Str) (oldPort : BitVec 16) : Option SockAddr := do
  let url ← RsUrl.fromString str
  let ip ← inet.pton url.host
  return .inet6 ip ((url.port.map UInt16.toBitVec).getD oldPort)

end RetroShare
