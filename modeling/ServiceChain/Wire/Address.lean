import ServiceChain.Address.Ipv6
import ServiceChain.Address.Mac
import ServiceChain.Address.PortMask
import ServiceChain.Address.Protocol
import ServiceChain.Address.Segment
import ServiceChain.Wire.Fields

/-!
# Wire form of addresses

Addresses, networks and port masks are exchanged as their texts, segments as numbers.
-/

namespace ServiceChain

namespace MacAddress

def ofJson? : Json → Option MacAddress := Wire.readParsed parse

def toJson (mac : MacAddress) : Json := .str mac.text

end MacAddress

namespace Ipv4Addr

def ofJson? : Json → Option Ipv4Addr
  | .str s => ofChars? s.toList
  | _ => none

def toJson (address : Ipv4Addr) : Json := .str address.text

end Ipv4Addr

namespace Ipv4Net

def ofJson? : Json → Option Ipv4Net := Wire.readParsed parse

def toJson (net : Ipv4Net) : Json := .str net.text

end Ipv4Net

namespace IpNet

def ofJson? : Json → Option IpNet := Wire.readParsed parse

def toJson (net : IpNet) : Json := .str net.text

end IpNet

namespace PortMask

def ofJson? : Json → Option PortMask := Wire.readParsed parse

def toJson (m : PortMask) : Json := .str m.text

end PortMask

namespace SegmentId

def ofJson? (j : Json) : Option SegmentId := (Wire.readNat UInt32.size j).bind ofNat?

def toJson (segment : SegmentId) : Json := .nat segment.toNat

end SegmentId

namespace EtherType

def ofJson? : Json → Option EtherType := Wire.readName [ipv4, ipv6] text

def toJson (t : EtherType) : Json := .str t.text

end EtherType

namespace IpProtocol

def ofJson? : Json → Option IpProtocol := Wire.readName [tcp, udp, icmp] text

def toJson (p : IpProtocol) : Json := .str p.text

end IpProtocol

end ServiceChain
