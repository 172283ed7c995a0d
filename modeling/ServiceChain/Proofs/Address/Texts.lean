import ServiceChain.Address.Ipv4
import ServiceChain.Address.Mac
import ServiceChain.Address.PortMask
import ServiceChain.Proofs.Text.Numerals

/-!
# Addresses are read back from their texts

The texts of Ethernet addresses, of IPv4 addresses and networks, and of port masks are read as what
they were written for (`MacAddress.parse_text`, `Ipv4Addr.ofChars?_chars`, `Ipv4Net.parse_text`,
`PortMask.parse_text`).  Each is groups of digits joined by a separator: no digit is the separator, so
the text falls into the groups that it was joined from, and each group is read on its own.
-/

namespace ServiceChain

/-! ## Ethernet addresses -/

namespace MacAddress

theorem octet?_hexPadded (o : UInt8) : octet? (Text.hexPadded 2 o.toNat) = some o := by
  have hlength : (Text.hexPadded 2 o.toNat).length ≤ 2 := by
    have hdigits : (Nat.toDigits 16 o.toNat).length ≤ 2 :=
      (Nat.length_toDigits_le_iff (by decide) (by decide)).2 o.toNat_lt
    simp only [Text.hexPadded, Text.hex, List.length_append, List.length_replicate]
    omega
  rw [octet?, if_pos hlength, Text.numeral?_of_digits? (Text.writtenWith_hexPadded [] 2 o.toNat)
    (Text.digits?_hexPadded 2 o.toNat) o.toNat_lt]
  simp

theorem writtenWith_chars (mac : MacAddress) : Text.WrittenWith [':'] mac.chars := by
  apply Text.WrittenWith.intercalate List.mem_cons_self
  intro group hgroup
  obtain ⟨o, -, rfl⟩ := List.mem_map.1 hgroup
  exact Text.writtenWith_hexPadded [':'] 2 o.toNat

theorem separator_chars (mac : MacAddress) : separator mac.chars = ':' := by
  have hhyphen : '-' ∉ mac.chars :=
    mac.writtenWith_chars.not_mem (by simp) fun d => Nat.digitChar_ne '-' rfl
  simp [separator, hhyphen]

theorem ofList?_toList (mac : MacAddress) : ofList? mac.octets.toList = some mac := by
  rw [ofList?, dif_pos mac.octets.length_toList]
  exact congrArg (fun octets => some (mk octets)) (Vector.mk_eq.2 rfl)

theorem ofChars?_chars (mac : MacAddress) : ofChars? mac.chars = some mac := by
  have hcolon : ∀ group ∈ mac.octets.toList.map fun o => Text.hexPadded 2 o.toNat,
      ':' ∉ group := by
    intro group hgroup
    obtain ⟨o, -, rfl⟩ := List.mem_map.1 hgroup
    exact (Text.writtenWith_hexPadded [] 2 o.toNat).not_mem (by simp)
      fun d => Nat.digitChar_ne ':' rfl
  rw [ofChars?, separator_chars, chars, List.splitOn_intercalate ':' hcolon (by simp),
    Text.mapM_map_eq_some octet?_hexPadded, Option.bind_some, ofList?_toList]

@[simp]
theorem parse_text (mac : MacAddress) : parse mac.text = .ok mac := by
  simp [parse, text, ofChars?_chars]

end MacAddress

/-! ## IPv4 addresses -/

namespace Ipv4Addr

theorem octet?_decimal (o : BitVec 8) : octet? (Text.decimal o.toNat) = some o := by
  have hlength : (Text.decimal o.toNat).length ≤ 3 :=
    (Nat.length_toDigits_le_iff (by decide) (by decide)).2 (by omega)
  have hzero : (Text.decimal o.toNat).head? ≠ some '0' ∨ (Text.decimal o.toNat).length = 1 := by
    by_cases h : 0 < o.toNat
    · exact .inl (Text.head?_toDigits (by decide) h)
    · obtain h : o.toNat = 0 := by omega
      exact .inr (by rw [h]; rfl)
  rw [octet?, if_pos ⟨hlength, hzero⟩, Text.decimal,
    Text.digits?_toDigits (by decide) (by decide)]
  simp [o.isLt]

theorem writtenWith_chars (address : Ipv4Addr) : Text.WrittenWith ['.'] address.chars := by
  apply Text.WrittenWith.intercalate List.mem_cons_self
  intro group hgroup
  obtain ⟨o, -, rfl⟩ := List.mem_map.1 hgroup
  exact Text.writtenWith_decimal ['.'] o.toNat

theorem ofOctets_octets (address : Ipv4Addr) :
    ofOctets (address.bits.extractLsb' 24 8) (address.bits.extractLsb' 16 8)
      (address.bits.extractLsb' 8 8) (address.bits.extractLsb' 0 8) = address := by
  obtain ⟨bits⟩ := address
  have happend (start m n : Nat) : bits.extractLsb' (start + m) n ++ bits.extractLsb' start m =
      bits.extractLsb' start (n + m) := BitVec.extractLsb'_append_extractLsb'_eq_extractLsb' rfl
  rw [ofOctets, mk.injEq]
  calc
    bits.extractLsb' 24 8 ++ bits.extractLsb' 16 8 ++ bits.extractLsb' 8 8 ++
        bits.extractLsb' 0 8
      = bits.extractLsb' 16 16 ++ bits.extractLsb' 8 8 ++ bits.extractLsb' 0 8 := by
        rw [happend 16 8 8]
    _ = bits.extractLsb' 8 24 ++ bits.extractLsb' 0 8 := by rw [happend 8 8 16]
    _ = bits.extractLsb' 0 32 := happend 0 8 24
    _ = bits := BitVec.extractLsb'_eq_self

theorem ofChars?_chars (address : Ipv4Addr) : ofChars? address.chars = some address := by
  have hdot : ∀ group ∈ address.octets.map fun o => Text.decimal o.toNat, '.' ∉ group := by
    intro group hgroup
    obtain ⟨o, -, rfl⟩ := List.mem_map.1 hgroup
    exact (Text.writtenWith_decimal [] o.toNat).not_mem (by simp) fun d => Nat.digitChar_ne '.' rfl
  rw [ofChars?, chars, List.splitOn_intercalate '.' hdot (by simp [octets])]
  simp only [octets, List.map_cons, List.map_nil, octet?_decimal, Option.bind_eq_bind,
    Option.bind_some, Option.pure_def, ofOctets_octets]

end Ipv4Addr

/-! ## IPv4 networks -/

namespace Ipv4Net

theorem around_address (net : Ipv4Net) : around net.address net.length net.length_le = net := by
  obtain ⟨⟨bits⟩, length, hle, hnet⟩ := net
  simp only [around, mk.injEq, Ipv4Addr.mk.injEq, and_true]
  exact hnet

theorem length?_decimal {length : Nat} (h : length ≤ 32) :
    length? (Text.decimal length) = some length := by
  have hdot : '.' ∉ Text.decimal length :=
    (Text.writtenWith_decimal [] length).not_mem (by simp) fun d => Nat.digitChar_ne '.' rfl
  rw [length?, if_neg (by simpa using hdot), Text.numeral?_decimal (by omega)]

theorem writtenWith_chars (net : Ipv4Net) : Text.WrittenWith ['.', '/'] net.chars := by
  have haddress : Text.WrittenWith ['.', '/'] net.address.chars :=
    net.address.writtenWith_chars.mono (by simp)
  exact haddress.append ((Text.writtenWith_decimal _ net.length).cons (by simp))

theorem parts?_slash (address : Ipv4Addr) {length : List Char}
    (h : Text.WrittenWith ['.', '/'] length) :
    parts? (address.chars ++ '/' :: length) = (length? length).map (address, ·) := by
  have hslash : '/' ∉ address.chars :=
    address.writtenWith_chars.not_mem (by simp) fun d => Nat.digitChar_ne '/' rfl
  have hwritten : Text.WrittenWith ['.', '/'] (address.chars ++ '/' :: length) :=
    (address.writtenWith_chars.mono (by simp)).append (h.cons (by simp))
  rw [parts?, hwritten.trim_eq_self rfl, Text.cut?_append_cons hslash]
  cases hlength : length? length <;> simp [Ipv4Addr.ofChars?_chars, hlength]

theorem parts?_chars (net : Ipv4Net) : parts? net.chars = some (net.address, net.length) := by
  rw [chars, parts?_slash _ (Text.writtenWith_decimal _ net.length),
    length?_decimal net.length_le, Option.map_some]

@[simp]
theorem parse_text (net : Ipv4Net) : parse net.text = .ok net := by
  simp [parse, text, parts?_chars, of, net.length_le, around_address]

end Ipv4Net

/-! ## Port masks -/

namespace PortMask

theorem of_value_mask (m : PortMask) : of m.value m.mask = m := by
  obtain ⟨value, mask, h⟩ := m
  simp only [of, h]

theorem mask?_hex (mask : UInt16) : mask? ('0' :: 'x' :: Text.hex mask.toNat) = some mask.toNat :=
  Text.numeral?_of_digits? (Text.writtenWith_hex [] mask.toNat)
    (Text.digits?_toDigits (by decide) (by decide) mask.toNat) mask.toNat_lt

theorem ofChars?_chars (m : PortMask) : ofChars? m.chars = some m := by
  have hslash : '/' ∉ Text.decimal m.value.toNat :=
    (Text.writtenWith_decimal [] m.value.toNat).not_mem (by simp) fun d => Nat.digitChar_ne '/' rfl
  have hchars : m.chars =
      Text.decimal m.value.toNat ++ '/' :: '0' :: 'x' :: Text.hex m.mask.toNat := by
    simp [chars]
  have hvalue : Text.numeral? 10 65536 (Text.decimal m.value.toNat) = some m.value.toNat :=
    Text.numeral?_decimal m.value.toNat_lt
  rw [ofChars?, hchars, Text.cut?_append_cons hslash]
  simp [hvalue, mask?_hex, of_value_mask]

@[simp]
theorem parse_text (m : PortMask) : parse m.text = .ok m := by
  simp [parse, text, ofChars?_chars]

end PortMask

end ServiceChain
