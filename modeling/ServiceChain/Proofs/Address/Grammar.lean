import ServiceChain.Proofs.Address.Texts
import ServiceChain.Proofs.Text.Digits

/-!
# The texts that are read as addresses and port masks

A text is read as an Ethernet address if it is six groups of one or two characters, joined by colons or by
hyphens, and as a port mask if it is a decimal numeral, `/0x` and a hexadecimal one (`WrittenBy`).  The
numerals should be digits (`Text.Denotes`), and the reader lets each start with a plus sign
(`Text.DenotesSigned`).  So both readers keep to the grammar just on the texts that have no plus sign or are
not read (`readers_accept_iff`).
-/

namespace ServiceChain

open Text

/-! ## Ethernet addresses -/

namespace MacAddress

/-- The text is six groups of at most two characters, joined by colons or by hyphens, that denote the octets
of the address. -/
def WrittenBy (denotes : Nat → List Char → Nat → Prop) (mac : MacAddress) (cs : List Char) : Prop :=
  ∃ sep groups, (sep = ':' ∨ sep = '-') ∧ cs = [sep].intercalate groups ∧
    List.Forall₂ (fun group (o : UInt8) => group.length ≤ 2 ∧ denotes 16 group o.toNat) groups
      mac.octets.toList

variable {mac : MacAddress} {cs group : List Char} {o : UInt8} {os : List UInt8} {s : String}

theorem octet?_eq_some_iff :
    octet? group = some o ↔ group.length ≤ 2 ∧ DenotesSigned 16 group o.toNat := by
  simp only [octet?, Option.ite_none_right_eq_some, Option.map_eq_some_iff,
    numeral?_eq_some_iff (Nat.le_refl 16)]
  refine and_congr_right fun _ => ?_
  constructor
  · rintro ⟨n, ⟨hn, hlt⟩, rfl⟩
    rwa [UInt8.toNat_ofNat_of_lt' hlt]
  · intro h
    exact ⟨o.toNat, ⟨h, o.toNat_lt⟩, UInt8.ofNat_toNat⟩

theorem ofList?_eq_some_iff : ofList? os = some mac ↔ os = mac.octets.toList := by
  constructor
  · intro h
    unfold ofList? at h
    split at h
    · obtain rfl := Option.some.inj h
      rfl
    · cases h
  · rintro rfl
    exact ofList?_toList mac

/-- The separator of groups is found again. -/
theorem splitOn_separator {sep : Char} {groups : List (List Char)} (hsep : sep = ':' ∨ sep = '-')
    (hgroups : ∀ group ∈ groups, ':' ∉ group ∧ '-' ∉ group) (hlength : 2 ≤ groups.length) :
    ([sep].intercalate groups).splitOn (separator ([sep].intercalate groups)) = groups := by
  have hne : groups ≠ [] := by
    rintro rfl
    simp at hlength
  rcases hsep with rfl | rfl
  · have hhyphen : '-' ∉ [':'].intercalate groups := by
      rw [mem_intercalate_iff (by decide)]
      rintro ⟨group, hgroup, hmem⟩
      exact (hgroups group hgroup).2 hmem
    rw [separator, if_neg (by simpa using hhyphen)]
    exact List.splitOn_intercalate ':' (fun group hgroup => (hgroups group hgroup).1) hne
  · have hhyphen : '-' ∈ ['-'].intercalate groups := sep_mem_intercalate hlength
    rw [separator, if_pos (by simpa using hhyphen)]
    exact List.splitOn_intercalate '-' (fun group hgroup => (hgroups group hgroup).2) hne

theorem parse_eq_ok_iff : parse s = .ok mac ↔ mac.WrittenBy DenotesSigned s.toList := by
  have hparse : parse s = .ok mac ↔ ofChars? s.toList = some mac := by
    rw [parse]
    cases ofChars? s.toList <;> simp
  rw [hparse, ofChars?, Option.bind_eq_some_iff]
  simp only [mapM_eq_some_iff, ofList?_eq_some_iff, octet?_eq_some_iff, exists_eq_right]
  constructor
  · intro hgroups
    -- the groups that are found are joined to the text again
    refine ⟨separator s.toList, _, ?_, (List.intercalate_splitOn _).symm, hgroups⟩
    unfold separator
    split
    · exact .inr rfl
    · exact .inl rfl
  · rintro ⟨sep, groups, hsep, htext, hgroups⟩
    -- neither separator is a digit or a sign, so the text falls into the groups it was joined from
    have hread : List.Forall₂ (fun group (o : UInt8) => (':' ∉ group ∧ '-' ∉ group) ∧
        group.length ≤ 2 ∧ DenotesSigned 16 group o.toNat) groups mac.octets.toList :=
      hgroups.imp fun group o h => ⟨⟨h.2.not_mem (Nat.le_refl 16) rfl (by decide),
        h.2.not_mem (Nat.le_refl 16) rfl (by decide)⟩, h⟩
    obtain ⟨hseps, -⟩ := (List.forall₂_and_left _ _).1 hread
    have hlength : groups.length = 6 := hgroups.length_eq.trans mac.octets.length_toList
    rwa [htext, splitOn_separator hsep hseps (by omega)]

/-- What is written with digits is what is read and has no plus sign. -/
theorem writtenBy_denotes_iff :
    mac.WrittenBy Denotes cs ↔ mac.WrittenBy DenotesSigned cs ∧ '+' ∉ cs := by
  constructor
  · rintro ⟨sep, groups, hsep, rfl, hgroups⟩
    have hread : List.Forall₂ (fun group (o : UInt8) => '+' ∉ group ∧
        group.length ≤ 2 ∧ DenotesSigned 16 group o.toNat) groups mac.octets.toList :=
      hgroups.imp fun group o h => ⟨plus_not_mem_of_denotes (Nat.le_refl 16) h.2, h.1, .inl h.2⟩
    obtain ⟨hplus, hsigned⟩ := (List.forall₂_and_left _ _).1 hread
    refine ⟨⟨sep, groups, hsep, rfl, hsigned⟩, ?_⟩
    rw [mem_intercalate_iff (by rcases hsep with rfl | rfl <;> decide)]
    rintro ⟨group, hgroup, hmem⟩
    exact hplus group hgroup hmem
  · rintro ⟨⟨sep, groups, hsep, rfl, hgroups⟩, hplus⟩
    rw [mem_intercalate_iff (by rcases hsep with rfl | rfl <;> decide)] at hplus
    push Not at hplus
    refine ⟨sep, groups, hsep, rfl, ?_⟩
    refine ((List.forall₂_and_left _ _).2 ⟨hplus, hgroups⟩).imp ?_
    rintro group o ⟨hgroup, hle, hsigned⟩
    exact ⟨hle, (denotes_iff (Nat.le_refl 16)).2 ⟨hsigned, hgroup⟩⟩

end MacAddress

/-! ## Port masks -/

namespace PortMask

/-- The text is a decimal numeral, `/0x` and a hexadecimal numeral that denote the value and the mask. -/
def WrittenBy (denotes : Nat → List Char → Nat → Prop) (m : PortMask) (cs : List Char) : Prop :=
  ∃ (value mask : UInt16) (vs ms : List Char), cs = vs ++ '/' :: '0' :: 'x' :: ms ∧
    denotes 10 vs value.toNat ∧ denotes 16 ms mask.toNat ∧ of value mask = m

variable {m : PortMask} {cs : List Char} {s : String}

theorem mask?_eq_some_iff {n : Nat} :
    mask? cs = some n ↔ ∃ ms, cs = '0' :: 'x' :: ms ∧ DenotesSigned 16 ms n ∧ n < 65536 := by
  unfold mask?
  split
  · next ms => simp [numeral?_eq_some_iff]
  · next hnot =>
    refine ⟨nofun, ?_⟩
    rintro ⟨ms, rfl, -⟩
    exact absurd rfl (hnot ms)

theorem parse_eq_ok_iff : parse s = .ok m ↔ m.WrittenBy DenotesSigned s.toList := by
  have hparse : parse s = .ok m ↔ ofChars? s.toList = some m := by
    rw [parse]
    cases ofChars? s.toList <;> simp
  rw [hparse, ofChars?]
  simp only [Option.bind_eq_bind, Option.bind_eq_some_iff, Option.pure_def, Option.some.injEq,
    Prod.exists, numeral?_eq_some_iff (by decide : 10 ≤ 16), mask?_eq_some_iff]
  constructor
  · rintro ⟨vs, rest, hcut, value, ⟨hvalue, hlt⟩, mask, ⟨ms, rfl, hmask, hlt'⟩, rfl⟩
    refine ⟨UInt16.ofNat value, UInt16.ofNat mask, vs, ms, (eq_append_of_cut? hcut).1, ?_, ?_, rfl⟩
    · rwa [UInt16.toNat_ofNat_of_lt' hlt]
    · rwa [UInt16.toNat_ofNat_of_lt' hlt']
  · rintro ⟨value, mask, vs, ms, htext, hvalue, hmask, rfl⟩
    have hslash : '/' ∉ vs := hvalue.not_mem (by decide) rfl (by decide)
    refine ⟨vs, '0' :: 'x' :: ms, ?_, value.toNat, ⟨hvalue, value.toNat_lt⟩, mask.toNat,
      ⟨ms, rfl, hmask, mask.toNat_lt⟩, ?_⟩
    · rw [htext, cut?_append_cons hslash]
    · rw [UInt16.ofNat_toNat, UInt16.ofNat_toNat]

theorem writtenBy_denotes_iff :
    m.WrittenBy Denotes cs ↔ m.WrittenBy DenotesSigned cs ∧ '+' ∉ cs := by
  constructor
  · rintro ⟨value, mask, vs, ms, rfl, hvalue, hmask, hm⟩
    refine ⟨⟨value, mask, vs, ms, rfl, .inl hvalue, .inl hmask, hm⟩, ?_⟩
    have hplus := plus_not_mem_of_denotes (by decide) hvalue
    have hplus' := plus_not_mem_of_denotes (by decide) hmask
    simp [hplus, hplus']
  · rintro ⟨⟨value, mask, vs, ms, rfl, hvalue, hmask, hm⟩, hplus⟩
    simp only [List.mem_append, List.mem_cons, not_or] at hplus
    exact ⟨value, mask, vs, ms, rfl, (denotes_iff (by decide)).2 ⟨hvalue, hplus.1⟩,
      (denotes_iff (by decide)).2 ⟨hmask, hplus.2.2.2.2⟩, hm⟩

end PortMask

/-! ## Both readers -/

/-- What is read as an Ethernet address or a port mask is what is written by numerals that may have a sign.
That is what is written by digits just for a text that has no plus sign or is not read. -/
theorem readers_accept_iff (s : String) :
    (∀ mac, MacAddress.parse s = .ok mac ↔ mac.WrittenBy DenotesSigned s.toList) ∧
      (∀ m, PortMask.parse s = .ok m ↔ m.WrittenBy DenotesSigned s.toList) ∧
      ((∀ mac, MacAddress.parse s = .ok mac ↔ mac.WrittenBy Denotes s.toList) ↔
        ('+' ∈ s.toList → ∀ mac, MacAddress.parse s ≠ .ok mac)) ∧
      ((∀ m, PortMask.parse s = .ok m ↔ m.WrittenBy Denotes s.toList) ↔
        ('+' ∈ s.toList → ∀ m, PortMask.parse s ≠ .ok m)) := by
  refine ⟨fun mac => MacAddress.parse_eq_ok_iff, fun m => PortMask.parse_eq_ok_iff, ?_, ?_⟩
  · simp only [MacAddress.writtenBy_denotes_iff, ← MacAddress.parse_eq_ok_iff, iff_self_and]
    exact ⟨fun h hplus mac hmac => h mac hmac hplus, fun h mac hmac hplus => h hplus mac hmac⟩
  · simp only [PortMask.writtenBy_denotes_iff, ← PortMask.parse_eq_ok_iff, iff_self_and]
    exact ⟨fun h hplus m hm => h m hm hplus, fun h m hm hplus => h hplus m hm⟩

/-- An octet and a port after a plus sign are read. -/
theorem not_readers_accept_grammar :
    (¬ ∀ (s : String) (mac : MacAddress),
        MacAddress.parse s = .ok mac ↔ mac.WrittenBy Denotes s.toList) ∧
      ¬ ∀ (s : String) (m : PortMask),
        PortMask.parse s = .ok m ↔ m.WrittenBy Denotes s.toList := by
  constructor
  · intro hall
    have hread : MacAddress.parse "+a:16:3e:00:00:01" = .ok ⟨#v[0x0a, 0x16, 0x3e, 0, 0, 1]⟩ := by
      decide +kernel
    obtain ⟨-, hplus⟩ := MacAddress.writtenBy_denotes_iff.1 ((hall _ _).1 hread)
    exact hplus (by decide)
  · intro hall
    have hread : PortMask.parse "+80/0xfffc" = .ok (.of 80 0xfffc) := by
      decide +kernel
    obtain ⟨-, hplus⟩ := PortMask.writtenBy_denotes_iff.1 ((hall _ _).1 hread)
    exact hplus (by decide)

end ServiceChain
