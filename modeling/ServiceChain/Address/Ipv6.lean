import ServiceChain.Address.Ipv4

/-!
# IPv6 addresses and networks of either family

An address is eight groups of sixteen bits.  It is written in lower case hexadecimal, the first
longest run of two or more zero groups as a double colon, and an address that holds an IPv4 one as
`::ffff:` and the dotted form.  Read are eight groups of one to four digits, or fewer around one
double colon, the last two groups possibly dotted.
-/

namespace ServiceChain

/-- A 128-bit Internet address, as eight groups, highest first. -/
structure Ipv6Addr where
  groups : Vector (BitVec 16) 8
  deriving DecidableEq, Repr

namespace Ipv6Addr

/-- The address of eight groups, `none` for any other number of them. -/
def ofList? (groups : List (BitVec 16)) : Option Ipv6Addr :=
  if h : groups.length = 8 then some ⟨⟨groups.toArray, by simpa using h⟩⟩ else none

/-- The bits under a netmask of the given length. -/
def under (length : Nat) (address : Ipv6Addr) : Ipv6Addr :=
  ⟨address.groups.mapIdx fun i g => network (min 16 (length - 16 * i)) g⟩

theorem under_under (length : Nat) (address : Ipv6Addr) :
    under length (under length address) = under length address := by
  simp only [under, mk.injEq]
  ext i hi : 1
  simp [network_network]

/-! ## Text -/

/-- The number of zero groups at the front. -/
def leadingZeros (groups : List (BitVec 16)) : Nat := (groups.takeWhile (· == 0)).length

/-- Start and length of the first longest run of zero groups. -/
def longestZeros : List (BitVec 16) → Nat × Nat
  | [] => (0, 0)
  | g :: gs =>
    let (start, length) := longestZeros gs
    if length ≤ leadingZeros (g :: gs) then (0, leadingZeros (g :: gs)) else (start + 1, length)

/-- Groups in hexadecimal joined by colons. -/
def groupChars (groups : List (BitVec 16)) : List Char :=
  [':'].intercalate (groups.map fun g => Text.hex g.toNat)

/-- Groups with their first longest run of zeros, if it has two or more, as a double colon. -/
def compressedChars (groups : List (BitVec 16)) : List Char :=
  let (start, length) := longestZeros groups
  if 2 ≤ length then
    groupChars (groups.take start) ++ ':' :: ':' :: groupChars (groups.drop (start + length))
  else groupChars groups

/-- The IPv4 address held by an address under `::ffff:`. -/
def mapped? (address : Ipv6Addr) : Option Ipv4Addr :=
  match address.groups.toList with
  | [0, 0, 0, 0, 0, 0xffff, g, h] => some ⟨g ++ h⟩
  | _ => none

/-- The written form, as characters. -/
def chars (address : Ipv6Addr) : List Char :=
  match address.mapped? with
  | some inner => "::ffff:".toList ++ inner.chars
  | none => compressedChars address.groups.toList

/-- A group: one to four hexadecimal digits. -/
def group? (cs : List Char) : Option (BitVec 16) :=
  if cs.length ≤ 4 then (Text.digits? 16 cs).map (BitVec.ofNat 16) else none

/-- The groups of a list of pieces; the last piece may be a dotted address where that is allowed. -/
def groups? (dotted : Bool) : List (List Char) → Option (List (BitVec 16))
  | [] => some []
  | [piece] =>
    if dotted && piece.contains '.' then
      (Ipv4Addr.ofChars? piece).map fun a => [a.bits.extractLsb' 16 16, a.bits.extractLsb' 0 16]
    else (group? piece).map ([·])
  | piece :: pieces => do return (← group? piece) :: (← groups? dotted pieces)

/-- The groups on one side of a double colon, possibly none. -/
def side? (dotted : Bool) (cs : List Char) : Option (List (BitVec 16)) :=
  if cs.isEmpty then some [] else groups? dotted (cs.splitOn ':')

/-- The parts before and after the first double colon. -/
def cutDouble? : List Char → Option (List Char × List Char)
  | ':' :: ':' :: cs => some ([], cs)
  | c :: cs => (cutDouble? cs).map fun (l, r) => (c :: l, r)
  | [] => none

/-- The address written by a text. -/
def ofChars? (cs : List Char) : Option Ipv6Addr :=
  match cutDouble? cs with
  | none => (groups? true (cs.splitOn ':')).bind ofList?
  | some (l, r) => do
    let left ← side? false l
    let right ← side? true r
    if left.length + right.length ≤ 7 then
      ofList? (left ++ List.replicate (8 - (left.length + right.length)) 0 ++ right)
    else none

end Ipv6Addr

/-- A network of 128-bit addresses: those whose first `length` bits are the ones of `address`. -/
structure Ipv6Net where
  address : Ipv6Addr
  length : Nat
  length_le : length ≤ 128
  under_eq : address.under length = address
  deriving DecidableEq, Repr

namespace Ipv6Net

/-- The network of the given length around an address. -/
def around (address : Ipv6Addr) (length : Nat) (h : length ≤ 128) : Ipv6Net where
  address := address.under length
  length
  length_le := h
  under_eq := address.under_under length

/-- The address, a slash and the length. -/
def chars (net : Ipv6Net) : List Char := net.address.chars ++ '/' :: Text.decimal net.length

/-- The address and the length that a text names. -/
def parts? (cs : List Char) : Option (Ipv6Addr × Nat) :=
  match Text.cut? '/' (Text.trim cs) with
  | none => (Ipv6Addr.ofChars? (Text.trim cs)).map (·, 128)
  | some (address, length) =>
    do return (← Ipv6Addr.ofChars? address, ← Text.numeral? 10 256 length)

/-- The network written by a text. -/
def ofChars? (cs : List Char) : Option Ipv6Net :=
  (parts? cs).bind fun (address, length) =>
    if h : length ≤ 128 then some (around address length h) else none

end Ipv6Net

/-- A network of either family.  Only IPv4 ones reach a flow match; the others are carried so that
a classifier is stored and reported as it came. -/
inductive IpNet where
  | v4 (net : Ipv4Net)
  | v6 (net : Ipv6Net)
  deriving DecidableEq, Repr

namespace IpNet

/-- The network, if it is an IPv4 one. -/
def v4? : IpNet → Option Ipv4Net
  | v4 net => some net
  | v6 _ => none

/-- The network is an IPv6 one. -/
def isV6 : IpNet → Bool
  | v4 _ => false
  | v6 _ => true

/-- The IPv4 network that an optional selector means: none given is every address, and an IPv6 one
has no meaning. -/
def v4OrAny? : Option IpNet → Option Ipv4Net
  | none => some Ipv4Net.any
  | some net => net.v4?

/-- The written form, as characters. -/
def chars : IpNet → List Char
  | v4 net => net.chars
  | v6 net => net.chars

/-- The written form of a network. -/
def text (net : IpNet) : String := String.ofList net.chars

/-- Reads a network, an IPv6 one if the text has a colon; the error repeats the text. -/
def parse (s : String) : Except AddressError IpNet :=
  if s.toList.contains ':' then
    match Ipv6Net.ofChars? s.toList with
    | some net => .ok (v6 net)
    | none => .error (.subnet s)
  else (Ipv4Net.parse s).map v4

end IpNet

end ServiceChain
