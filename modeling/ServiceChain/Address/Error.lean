/-!
# Rejected addresses

Why a text or a number is not an address, a subnet, a segment, a protocol or a port mask.
-/

namespace ServiceChain

/-- Why a value of an address type could not be read; each carries what was offered. -/
inductive AddressError where
  | mac (text : String)
  | subnet (text : String)
  | segment (id : Nat)
  | etherType (text : String)
  | protocol (text : String)
  | portMask (text : String)
  deriving DecidableEq, Repr

namespace AddressError

/-- The sentence shown to an operator. -/
def message : AddressError → String
  | mac text => "invalid MAC address format: " ++ text
  | subnet text => "invalid IP prefix: " ++ text
  | segment id => "invalid segment id: " ++ toString id ++ " (must be 1-4094)"
  | etherType text => "unknown ethertype: " ++ text
  | protocol text => "unknown IP protocol: " ++ text
  | portMask text => "invalid port mask: " ++ text

end AddressError

end ServiceChain
