import ServiceChain.Address.Error

/-!
# Ethertypes and IP protocols
-/

namespace ServiceChain

/-- The address family that a classifier selects. -/
inductive EtherType where
  | ipv4
  | ipv6
  deriving DecidableEq, Repr, Inhabited

namespace EtherType

/-- The type field of IPv4 frames. -/
def ipv4Value : UInt16 := 0x0800

/-- The type field of frames under an MPLS label. -/
def mplsUnicast : UInt16 := 0x8847

/-- The type field of the frames of a family. -/
def value : EtherType → UInt16
  | ipv4 => ipv4Value
  | ipv6 => 0x86dd

/-- The name of a family. -/
def text : EtherType → String
  | ipv4 => "IPv4"
  | ipv6 => "IPv6"

/-- Reads a name, capitalised or all in lower case. -/
def parse (s : String) : Except AddressError EtherType :=
  if s = "IPv4" ∨ s = "ipv4" then .ok ipv4
  else if s = "IPv6" ∨ s = "ipv6" then .ok ipv6
  else .error (.etherType s)

end EtherType

/-- A transport protocol that a classifier selects. -/
inductive IpProtocol where
  | tcp
  | udp
  | icmp
  deriving DecidableEq, Repr

namespace IpProtocol

/-- The assigned protocol number. -/
def number : IpProtocol → UInt8
  | icmp => 1
  | tcp => 6
  | udp => 17

/-- The name of a protocol. -/
def text : IpProtocol → String
  | tcp => "tcp"
  | udp => "udp"
  | icmp => "icmp"

/-- Reads a name in any case of its ASCII letters. -/
def parse (s : String) : Except AddressError IpProtocol :=
  match s.toList.map Char.toLower with
  | ['t', 'c', 'p'] => .ok tcp
  | ['u', 'd', 'p'] => .ok udp
  | ['i', 'c', 'm', 'p'] => .ok icmp
  | _ => .error (.protocol s)

end IpProtocol

end ServiceChain
