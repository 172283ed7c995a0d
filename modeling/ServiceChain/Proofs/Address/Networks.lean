import ServiceChain.Proofs.Address.Texts

/-!
# Networks and the addresses in them

A netmask is told by its bits, ones up to its length and zeros behind (`IsNetmask`), so a word is a netmask of
at most one length, and that is the length that is read from it (`netmaskLength?_eq_some_iff`).  A network
contains the addresses that share its first bits (`contains_iff`).  So one network lies in another just if it
is at least as long and its own address does (`subset_iff`), and two that contain the same addresses are one
(`networks_canonical`).
-/

namespace ServiceChain

/-! ## Netmasks -/

section Netmask

variable {w length : Nat} {word : BitVec w}

/-- The word is a run of ones of a length, followed by zeros. -/
def IsNetmask (word : BitVec w) (length : Nat) : Prop :=
  ∀ i < w, word.getMsbD i = decide (i < length)

instance : Decidable (IsNetmask word length) :=
  inferInstanceAs (Decidable (∀ i < w, word.getMsbD i = decide (i < length)))

theorem getMsbD_netmask (h : length ≤ w) (i : Nat) :
    (netmask w length).getMsbD i = decide (i < length) := by
  rw [netmask, BitVec.getMsbD_shiftLeft, BitVec.getMsbD_allOnes, decide_eq_decide]
  omega

theorem getMsbD_network (h : length ≤ w) (word : BitVec w) (i : Nat) :
    (network length word).getMsbD i = (word.getMsbD i && decide (i < length)) := by
  rw [network, BitVec.getMsbD_and, getMsbD_netmask h]

theorem leadingOnes_le (word : BitVec w) : leadingOnes word ≤ w := by
  have hle : (~~~word).clz.toNat ≤ ((w : Nat) : BitVec w).toNat := BitVec.clz_le
  rwa [BitVec.natCast_eq_ofNat, BitVec.toNat_ofNat, Nat.mod_eq_of_lt Nat.lt_two_pow_self] at hle

theorem getMsbD_of_lt_leadingOnes {i : Nat} (h : i < leadingOnes word) : word.getMsbD i = true := by
  have hi : i < w := h.trans_le (leadingOnes_le word)
  have hsmall : (~~~word).toNat < 2 ^ (w - leadingOnes word) := BitVec.toNat_lt_two_pow_sub_clz
  have hzero : (~~~word).getMsbD i = false := by
    rw [BitVec.getMsbD_eq_getLsbD, decide_eq_true hi, Bool.true_and, ← BitVec.testBit_toNat]
    exact Nat.testBit_lt_two_pow (hsmall.trans_le (Nat.pow_le_pow_right (by decide) (by omega)))
  simpa [BitVec.getMsbD_not, hi] using hzero

/-- The leading ones end at a zero. -/
theorem getMsbD_leadingOnes (h : leadingOnes word < w) : word.getMsbD (leadingOnes word) = false := by
  have hne : ~~~word ≠ 0#w := by
    intro hzero
    have hfull : (~~~word).clz.toNat = w := by
      rw [BitVec.clz_eq_iff_eq_zero.2 hzero, BitVec.natCast_eq_ofNat, BitVec.toNat_ofNat,
        Nat.mod_eq_of_lt Nat.lt_two_pow_self]
    exact absurd hfull (Nat.ne_of_lt h)
  have hone : (~~~word).getMsbD (leadingOnes word) = true := by
    rw [BitVec.getMsbD_eq_getLsbD, decide_eq_true h, Bool.true_and]
    exact BitVec.getLsbD_true_clz_of_ne_zero (by omega) hne
  simpa [BitVec.getMsbD_not, h] using hone

theorem IsNetmask.leadingOnes_eq (h : IsNetmask word length) (hle : length ≤ w) :
    leadingOnes word = length := by
  have hones := leadingOnes_le word
  refine Nat.le_antisymm ?_ ?_ <;> by_contra hlt
  · have hone : word.getMsbD length = true := getMsbD_of_lt_leadingOnes (by omega)
    simp [h length (by omega)] at hone
  · have hzero : word.getMsbD (leadingOnes word) = false := getMsbD_leadingOnes (by omega)
    rw [h _ (by omega), decide_eq_false_iff_not] at hzero
    omega

/-- A word is read as a netmask of the one length that it has. -/
theorem netmaskLength?_eq_some_iff :
    netmaskLength? word = some length ↔ length ≤ w ∧ IsNetmask word length := by
  rw [netmaskLength?, Option.ite_none_right_eq_some, Option.some.injEq]
  constructor
  · rintro ⟨hshift, rfl⟩
    refine ⟨leadingOnes_le word, fun i _ => ?_⟩
    by_cases hi : i < leadingOnes word
    · rw [getMsbD_of_lt_leadingOnes hi, decide_eq_true hi]
    · -- the bits behind are those of the shifted word
      have hbehind := BitVec.getMsbD_shiftLeft (k := i - leadingOnes word) word (leadingOnes word)
      rw [hshift, Nat.sub_add_cancel (by omega)] at hbehind
      rw [← hbehind, decide_eq_false hi]
      exact BitVec.getMsbD_zero
  · rintro ⟨hle, hmask⟩
    have hones := hmask.leadingOnes_eq hle
    refine ⟨BitVec.eq_of_getMsbD_eq fun i _ => ?_, hones⟩
    rw [BitVec.getMsbD_shiftLeft, hones, BitVec.ofNat_eq_ofNat, BitVec.getMsbD_zero]
    by_cases hi : i + length < w
    · simp [hmask _ hi]
    · exact BitVec.getMsbD_of_ge _ _ (by omega)

end Netmask

/-- Two addresses share their first bits, up to a number of them. -/
def Ipv4Addr.SharesFirst (length : Nat) (a b : Ipv4Addr) : Prop :=
  ∀ i < length, a.bits.getMsbD i = b.bits.getMsbD i

namespace Ipv4Net

/-! ## Addresses in a network -/

theorem getMsbD_address (net : Ipv4Net) (i : Nat) :
    net.address.bits.getMsbD i = (net.address.bits.getMsbD i && decide (i < net.length)) := by
  conv_lhs => rw [← net.network_eq]
  exact getMsbD_network net.length_le net.address.bits i

theorem contains_iff (net : Ipv4Net) (address : Ipv4Addr) :
    net.contains address ↔ address.SharesFirst net.length net.address := by
  rw [contains, beq_iff_eq]
  constructor
  · intro heq i hi
    rw [← heq, getMsbD_network net.length_le, decide_eq_true hi, Bool.and_true]
  · intro hshares
    apply BitVec.eq_of_getMsbD_eq
    intro i _
    rw [getMsbD_network net.length_le, getMsbD_address]
    by_cases hi : i < net.length
    · rw [hshares i hi]
    · simp [hi]

theorem contains_around (address other : Ipv4Addr) (length : Nat) (h : length ≤ 32) :
    (around address length h).contains other ↔ other.SharesFirst length address := by
  rw [contains_iff]
  refine forall₂_congr fun i (hi : i < length) => ?_
  rw [around, getMsbD_network h, decide_eq_true hi, Bool.and_true]

/-! ## Networks in networks -/

/-- The address of a network with all bits behind its length flipped lies in the network. -/
def farthest (net : Ipv4Net) : Ipv4Addr := ⟨net.address.bits ^^^ ~~~netmask 32 net.length⟩

theorem getMsbD_farthest (net : Ipv4Net) {i : Nat} (hi : i < 32) :
    net.farthest.bits.getMsbD i = (net.address.bits.getMsbD i ^^ !decide (i < net.length)) := by
  rw [farthest, BitVec.getMsbD_xor, BitVec.getMsbD_not, getMsbD_netmask net.length_le,
    decide_eq_true hi, Bool.true_and]

theorem contains_address (net : Ipv4Net) : net.contains net.address :=
  (contains_iff net _).2 fun _ _ => rfl

theorem contains_farthest (net : Ipv4Net) : net.contains net.farthest := by
  rw [contains_iff]
  intro i hi
  have := net.length_le
  rw [getMsbD_farthest net (by omega), decide_eq_true hi]
  simp

/-- One network lies in another just if it is at least as long and its own address does. -/
theorem subset_iff (a b : Ipv4Net) :
    (∀ address, a.contains address → b.contains address) ↔
      b.length ≤ a.length ∧ b.contains a.address := by
  constructor
  · intro hsub
    have haddress := hsub a.address a.contains_address
    refine ⟨?_, haddress⟩
    -- otherwise the bit behind the length of `a` is free in `a` and fixed in `b`
    by_contra hlt
    have hle := b.length_le
    have hfarthest := (contains_iff b _).1 (hsub a.farthest a.contains_farthest) a.length (by omega)
    rw [contains_iff] at haddress
    rw [getMsbD_farthest a (by omega), ← haddress a.length (by omega)] at hfarthest
    simp at hfarthest
  · rintro ⟨hlength, haddress⟩ address hcontains
    rw [contains_iff] at haddress hcontains ⊢
    intro i hi
    rw [hcontains i (by omega), haddress i hi]

theorem eq_of_address_of_length {a b : Ipv4Net} (haddress : a.address = b.address)
    (hlength : a.length = b.length) : a = b := by
  cases a
  cases b
  simp_all

theorem eq_of_subset_of_subset {a b : Ipv4Net} (h : ∀ address, a.contains address → b.contains address)
    (h' : ∀ address, b.contains address → a.contains address) : a = b := by
  obtain ⟨hle, haddress⟩ := (subset_iff a b).1 h
  obtain ⟨hle', -⟩ := (subset_iff b a).1 h'
  have hlength : a.length = b.length := Nat.le_antisymm hle' hle
  refine eq_of_address_of_length (congrArg Ipv4Addr.mk (BitVec.eq_of_getMsbD_eq fun i _ => ?_)) hlength
  rw [contains_iff] at haddress
  rw [getMsbD_address a, getMsbD_address b, hlength]
  by_cases hi : i < b.length
  · rw [haddress i hi]
  · simp [hi]

/-! ## Networks from texts -/

theorem length?_chars (mask : Ipv4Addr) : length? mask.chars = netmaskLength? mask.bits := by
  have hdot : '.' ∈ mask.chars := by
    simp [Ipv4Addr.chars, Ipv4Addr.octets, List.intercalate_cons_cons]
  rw [length?, if_pos (by simpa using hdot), Ipv4Addr.ofChars?_chars, Option.bind_some]

theorem of_of_le (address : Ipv4Addr) {length : Nat} (h : length ≤ 32) :
    of address length = .ok (around address length h) :=
  dif_pos h

theorem parse_length (address : Ipv4Addr) {length : Nat} (h : length ≤ 32) :
    parse (address.text ++ "/" ++ toString length) = .ok (around address length h) := by
  have hchars : (address.text ++ "/" ++ toString length).toList =
      address.chars ++ '/' :: Text.decimal length := by
    simp [Ipv4Addr.text, Text.decimal]
  rw [parse, hchars, parts?_slash address (Text.writtenWith_decimal _ length), length?_decimal h]
  exact of_of_le address h

theorem parse_mask (address mask : Ipv4Addr) :
    parse (address.text ++ "/" ++ mask.text) =
      match netmaskLength? mask.bits with
      | some length => of address length
      | none => .error (.subnet (address.text ++ "/" ++ mask.text)) := by
  have hchars : (address.text ++ "/" ++ mask.text).toList = address.chars ++ '/' :: mask.chars := by
    simp [Ipv4Addr.text]
  rw [parse, hchars, parts?_slash address (mask.writtenWith_chars.mono (by simp)), length?_chars]
  cases netmaskLength? mask.bits <;> rfl

/-- After a netmask the same network is read as after its length. -/
theorem parse_mask_eq_parse_length (address : Ipv4Addr) {mask : Ipv4Addr} {length : Nat}
    (hle : length ≤ 32) (hmask : IsNetmask mask.bits length) :
    parse (address.text ++ "/" ++ mask.text) = parse (address.text ++ "/" ++ toString length) := by
  rw [parse_mask, netmaskLength?_eq_some_iff.2 ⟨hle, hmask⟩, parse_length address hle]
  exact of_of_le address hle

theorem exists_parse_mask_iff (address mask : Ipv4Addr) :
    (∃ net, parse (address.text ++ "/" ++ mask.text) = .ok net) ↔
      ∃ length ≤ 32, IsNetmask mask.bits length := by
  constructor
  · rintro ⟨net, hnet⟩
    rw [parse_mask] at hnet
    split at hnet
    · next length hlength => exact ⟨length, netmaskLength?_eq_some_iff.1 hlength⟩
    · cases hnet
  · rintro ⟨length, hle, hmask⟩
    rw [parse_mask_eq_parse_length address hle hmask, parse_length address hle]
    exact ⟨_, rfl⟩

/-- Two networks are equal just if they contain the same addresses.  The network of a length around an address
contains those that share its first bits.  A network is read from an address and a dotted mask just if
the mask is a run of ones followed by zeros, and it is the one that is read from the length of the run. -/
theorem networks_canonical :
    (∀ a b : Ipv4Net, a = b ↔ ∀ address, a.contains address = b.contains address) ∧
      (∀ (address : Ipv4Addr) (length : Nat), length ≤ 32 → ∃ net, of address length = .ok net ∧
        ∀ other, net.contains other ↔ other.SharesFirst length address) ∧
      ∀ address mask : Ipv4Addr,
        ((∃ net, parse (address.text ++ "/" ++ mask.text) = .ok net) ↔
          ∃ length ≤ 32, IsNetmask mask.bits length) ∧
        ∀ length ≤ 32, IsNetmask mask.bits length →
          parse (address.text ++ "/" ++ mask.text) =
            parse (address.text ++ "/" ++ toString length) := by
  refine ⟨fun a b => ⟨?_, fun hsame => ?_⟩, fun address length hle => ?_, fun address mask => ?_⟩
  · rintro rfl address
    rfl
  · exact eq_of_subset_of_subset (fun address h => by rwa [← hsame]) fun address h => by rwa [hsame]
  · exact ⟨around address length hle, of_of_le address hle,
      fun other => contains_around address other length hle⟩
  · exact ⟨exists_parse_mask_iff address mask,
      fun _ hle hmask => parse_mask_eq_parse_length address hle hmask⟩

/-- The mask 255.255.0.0 is read as the length 16. -/
theorem sampleNetmask_read : (16 : Nat) ≤ 32 ∧ IsNetmask 0xffff0000#32 16 ∧
    parse "10.1.2.3/255.255.0.0" = parse "10.1.2.3/16" ∧
    ∃ net, of ⟨0x0a010203⟩ 16 = .ok net ∧
      ∀ other, net.contains other ↔ other.SharesFirst 16 ⟨0x0a010203⟩ := by
  obtain ⟨-, hcontains, hmasks⟩ := networks_canonical
  have hmask : IsNetmask 0xffff0000#32 16 := by decide
  have htext : (Ipv4Addr.mk 0x0a010203).text = "10.1.2.3" := by decide +kernel
  have hmaskText : (Ipv4Addr.mk 0xffff0000).text = "255.255.0.0" := by decide +kernel
  have hread := (hmasks ⟨0x0a010203⟩ ⟨0xffff0000⟩).2 16 (by decide) hmask
  rw [htext, hmaskText] at hread
  exact ⟨by decide, hmask, hread, hcontains _ 16 (by decide)⟩

end Ipv4Net

end ServiceChain
