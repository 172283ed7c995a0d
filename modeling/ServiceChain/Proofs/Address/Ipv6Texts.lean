import Mathlib.Data.List.TakeWhile
import ServiceChain.Address.Ipv6
import ServiceChain.Proofs.Address.Texts

/-!
# IPv6 addresses and networks are read back from their texts

The first longest run of zero groups cuts the groups in two (`longestZeros_spec`).  Groups joined by
colons hold no double colon and end in none, so a double colon after them is where the reader cuts
(`cutDouble?_groupChars_append`), and each side is read as the groups it was written for
(`side?_groupChars`).  So the reader finds the groups around the run and fills up the run between
them (`ofChars?_compressedChars`); an address that holds an IPv4 one is read by its two dotted groups
(`ofChars?_mapped`).  With the texts of IPv4 networks, which have no colon, this reads back networks
of either family (`IpNet.parse_text`).  So what is read from a text is read again from the text that is
written for it (`texts_read_back`).
-/

namespace ServiceChain

namespace Ipv6Addr

/-! ## Runs of zeros -/

theorem takeWhile_zeros (groups : List (BitVec 16)) :
    groups.take (leadingZeros groups) = List.replicate (leadingZeros groups) 0 := by
  rw [leadingZeros, ← List.prefix_iff_eq_take.1 (List.takeWhile_prefix _),
    List.eq_replicate_iff]
  refine ⟨rfl, fun g hg => ?_⟩
  simpa using List.mem_takeWhile_imp hg

/-- The groups are those before the run, the zeros of the run, and those after it. -/
theorem longestZeros_spec (groups : List (BitVec 16)) :
    groups.take (longestZeros groups).1 ++ List.replicate (longestZeros groups).2 0 ++
      groups.drop ((longestZeros groups).1 + (longestZeros groups).2) = groups := by
  induction groups with
  | nil => rfl
  | cons g gs ih =>
    rcases hrun : longestZeros gs with ⟨start, length⟩
    rw [hrun] at ih
    rw [longestZeros, hrun]
    dsimp only at ih ⊢
    split
    · simp only [List.take_zero, List.nil_append, Nat.zero_add]
      rw [← takeWhile_zeros, List.take_append_drop]
    · rw [List.take_succ_cons, Nat.add_right_comm, List.drop_succ_cons, List.cons_append,
        List.cons_append, ih]

/-! ## Groups -/

theorem groupChars_cons_cons (g h : BitVec 16) (gs : List (BitVec 16)) :
    groupChars (g :: h :: gs) = Text.hex g.toNat ++ ':' :: groupChars (h :: gs) := by
  simp [groupChars, List.intercalate_cons_cons]

theorem colon_not_mem_hex (n : Nat) : ':' ∉ Text.hex n :=
  (Text.writtenWith_hex [] n).not_mem (by simp) fun d => Nat.digitChar_ne ':' rfl

theorem dot_not_mem_hex (n : Nat) : '.' ∉ Text.hex n :=
  (Text.writtenWith_hex [] n).not_mem (by simp) fun d => Nat.digitChar_ne '.' rfl

theorem splitOn_groupChars {groups : List (BitVec 16)} (h : groups ≠ []) :
    (groupChars groups).splitOn ':' = groups.map fun g => Text.hex g.toNat := by
  apply List.splitOn_intercalate ':' _ (by simpa using h)
  intro piece hpiece
  obtain ⟨g, -, rfl⟩ := List.mem_map.1 hpiece
  exact colon_not_mem_hex g.toNat

theorem group?_hex (g : BitVec 16) : group? (Text.hex g.toNat) = some g := by
  have hlength : (Text.hex g.toNat).length ≤ 4 :=
    (Nat.length_toDigits_le_iff (by decide) (by decide)).2 (by omega)
  rw [group?, if_pos hlength, Text.hex, Text.digits?_toDigits (by decide) (by decide)]
  simp

theorem groups?_hex (dotted : Bool) (groups : List (BitVec 16)) :
    groups? dotted (groups.map fun g => Text.hex g.toNat) = some groups := by
  induction groups with
  | nil => rfl
  | cons g gs ih =>
    cases gs with
    | nil => simp [groups?, dot_not_mem_hex, group?_hex]
    | cons h gs =>
      rw [List.map_cons] at ih
      simp [groups?, group?_hex, ih]

theorem side?_groupChars (dotted : Bool) (groups : List (BitVec 16)) :
    side? dotted (groupChars groups) = some groups := by
  cases groups with
  | nil => rfl
  | cons g gs =>
    have hne : groupChars (g :: gs) ≠ [] := by
      cases gs <;> simp [groupChars, List.intercalate_cons_cons, Text.hex, Nat.toDigits_ne_nil]
    rw [side?, if_neg (by simpa using hne), splitOn_groupChars (by simp), groups?_hex]

/-! ## Double colons -/

theorem cutDouble?_cons_of_ne {c : Char} (h : c ≠ ':') (cs : List Char) :
    cutDouble? (c :: cs) = (cutDouble? cs).map fun (l, r) => (c :: l, r) := by
  rw [cutDouble?]
  rintro cs' rfl
  exact absurd rfl h

/-- No double colon starts in characters that are no colons. -/
theorem cutDouble?_append {cs : List Char} (h : ':' ∉ cs) (rest : List Char) :
    cutDouble? (cs ++ rest) = (cutDouble? rest).map fun (l, r) => (cs ++ l, r) := by
  induction cs with
  | nil => simp
  | cons c cs ih =>
    simp only [List.mem_cons, not_or] at h
    rw [List.cons_append, cutDouble?_cons_of_ne (Ne.symm h.1), ih h.2, Option.map_map]
    rfl

theorem cutDouble?_colon_cons {c : Char} (h : c ≠ ':') (cs : List Char) :
    cutDouble? (':' :: c :: cs) = (cutDouble? (c :: cs)).map fun (l, r) => (':' :: l, r) := by
  rw [cutDouble?]
  rintro cs' - hcs
  exact h (List.cons.inj hcs).1

theorem exists_groupChars_eq_cons (g : BitVec 16) (gs : List (BitVec 16)) :
    ∃ c cs, groupChars (g :: gs) = c :: cs ∧ c ≠ ':' := by
  have hne : Text.hex g.toNat ≠ [] := Nat.toDigits_ne_nil
  obtain ⟨c, cs, hhex⟩ := List.exists_cons_of_ne_nil hne
  have hc : c ≠ ':' := by
    rintro rfl
    exact colon_not_mem_hex g.toNat (by rw [hhex]; exact List.mem_cons_self)
  cases gs with
  | nil => exact ⟨c, cs, by simpa [groupChars] using hhex, hc⟩
  | cons h gs =>
    refine ⟨c, cs ++ ':' :: groupChars (h :: gs), ?_, hc⟩
    rw [groupChars_cons_cons, hhex, List.cons_append]

/-- No double colon starts in groups joined by colons. -/
theorem cutDouble?_groupChars_append (groups : List (BitVec 16)) (rest : List Char) :
    cutDouble? (groupChars groups ++ rest) =
      (cutDouble? rest).map fun (l, r) => (groupChars groups ++ l, r) := by
  induction groups with
  | nil => simp [groupChars]
  | cons g gs ih =>
    cases gs with
    | nil =>
      simp only [groupChars, List.map_cons, List.map_nil, List.intercalate_singleton]
      exact cutDouble?_append (colon_not_mem_hex g.toNat) rest
    | cons h gs =>
      -- the colon after the first group stands before a digit
      obtain ⟨c, cs, hfront, hc⟩ := exists_groupChars_eq_cons h gs
      rw [hfront, List.cons_append] at ih
      rw [groupChars_cons_cons, hfront, List.append_assoc, List.cons_append, List.cons_append,
        cutDouble?_append (colon_not_mem_hex g.toNat), cutDouble?_colon_cons hc, ih]
      simp [Option.map_map, Function.comp_def]

theorem cutDouble?_groupChars (groups : List (BitVec 16)) : cutDouble? (groupChars groups) = none := by
  have h := cutDouble?_groupChars_append groups []
  rwa [List.append_nil] at h

theorem cutDouble?_between (left right : List (BitVec 16)) :
    cutDouble? (groupChars left ++ ':' :: ':' :: groupChars right) =
      some (groupChars left, groupChars right) := by
  rw [cutDouble?_groupChars_append]
  simp [cutDouble?]

/-! ## Addresses -/

theorem ofList?_toList (address : Ipv6Addr) : ofList? address.groups.toList = some address := by
  rw [ofList?, dif_pos address.groups.length_toList]
  exact congrArg (fun groups => some (mk groups)) (Vector.mk_eq.2 rfl)

/-- Whether a run of zeros is left out or not, the groups are found again. -/
theorem ofChars?_compressedChars (address : Ipv6Addr) :
    ofChars? (compressedChars address.groups.toList) = some address := by
  have hspec := longestZeros_spec address.groups.toList
  have hsize := address.groups.length_toList
  have hlist := ofList?_toList address
  generalize address.groups.toList = groups at hspec hsize hlist ⊢
  rw [compressedChars]
  generalize longestZeros groups = run at hspec ⊢
  obtain ⟨start, length⟩ := run
  dsimp only at hspec ⊢
  split
  · -- at most six groups stand around a run, and the reader fills up the others to eight
    have hlength := congrArg List.length hspec
    simp only [List.length_append, List.length_take, List.length_replicate, List.length_drop]
      at hlength
    have hle : (groups.take start).length + (groups.drop (start + length)).length ≤ 7 := by
      rw [List.length_take, List.length_drop]
      omega
    have hrun : 8 - ((groups.take start).length + (groups.drop (start + length)).length) =
        length := by
      rw [List.length_take, List.length_drop]
      omega
    rw [ofChars?, cutDouble?_between]
    simp only [side?_groupChars, Option.bind_eq_bind, Option.bind_some]
    rw [if_pos hle, hrun, hspec, hlist]
  · rw [ofChars?, cutDouble?_groupChars, splitOn_groupChars (by rintro rfl; simp at hsize)]
    simp [groups?_hex, hlist]

theorem toList_of_mapped? {address : Ipv6Addr} {inner : Ipv4Addr}
    (h : address.mapped? = some inner) :
    address.groups.toList =
      [0, 0, 0, 0, 0, 0xffff, inner.bits.extractLsb' 16 16, inner.bits.extractLsb' 0 16] := by
  rw [mapped?] at h
  split at h
  · next high low hgroups =>
    obtain rfl := Option.some.inj h
    rw [hgroups, BitVec.extractLsb'_append_eq_left, BitVec.extractLsb'_append_eq_right]
    rfl
  · cases h

/-- The dotted groups are read as the last two groups of the address. -/
theorem ofChars?_mapped {address : Ipv6Addr} {inner : Ipv4Addr}
    (h : address.mapped? = some inner) :
    ofChars? ("::ffff:".toList ++ inner.chars) = some address := by
  have hcut : cutDouble? ("::ffff:".toList ++ inner.chars) =
      some ([], "ffff".toList ++ ':' :: inner.chars) := rfl
  have hcolon : ':' ∉ inner.chars :=
    inner.writtenWith_chars.not_mem (by simp) fun d => Nat.digitChar_ne ':' rfl
  have hdot : '.' ∈ inner.chars := by
    simp [Ipv4Addr.chars, Ipv4Addr.octets, List.intercalate_cons_cons]
  have hright : side? true ("ffff".toList ++ ':' :: inner.chars) =
      some [0xffff, inner.bits.extractLsb' 16 16, inner.bits.extractLsb' 0 16] := by
    have hffff : group? ['f', 'f', 'f', 'f'] = some 0xffff := rfl
    rw [side?, if_neg (by simp), List.splitOn_append_cons_self_of_not_mem (by decide),
      List.splitOn_eq_singleton hcolon]
    simp [groups?, hffff, hdot, Ipv4Addr.ofChars?_chars]
  have hleft : side? false [] = some [] := rfl
  rw [ofChars?, hcut]
  simp only [hleft, hright, Option.bind_eq_bind, Option.bind_some]
  rw [← ofList?_toList address, toList_of_mapped? h]
  rfl

theorem ofChars?_chars (address : Ipv6Addr) : ofChars? address.chars = some address := by
  rw [chars]
  split
  · next inner hinner => exact ofChars?_mapped hinner
  · exact ofChars?_compressedChars address

/-! ## Characters -/

theorem writtenWith_groupChars {seps : List Char} (hcolon : ':' ∈ seps)
    (groups : List (BitVec 16)) : Text.WrittenWith seps (groupChars groups) := by
  apply Text.WrittenWith.intercalate hcolon
  intro piece hpiece
  obtain ⟨g, -, rfl⟩ := List.mem_map.1 hpiece
  exact Text.writtenWith_hex seps g.toNat

theorem writtenWith_chars (address : Ipv6Addr) : Text.WrittenWith [':', '.'] address.chars := by
  have hcolon : ':' ∈ [':', '.'] := List.mem_cons_self
  rw [chars]
  split
  · next inner _ =>
    have hfront : "::ffff:".toList ++ inner.chars =
        ':' :: ':' :: (groupChars [0xffff] ++ ':' :: inner.chars) := rfl
    have hinner : Text.WrittenWith [':', '.'] inner.chars := inner.writtenWith_chars.mono (by simp)
    rw [hfront]
    exact (((writtenWith_groupChars hcolon _).append (hinner.cons hcolon)).cons hcolon).cons hcolon
  · rw [compressedChars]
    dsimp only
    split
    · exact (writtenWith_groupChars hcolon _).append
        (((writtenWith_groupChars hcolon _).cons hcolon).cons hcolon)
    · exact writtenWith_groupChars hcolon _

theorem colon_mem_groupChars {groups : List (BitVec 16)} (h : 2 ≤ groups.length) :
    ':' ∈ groupChars groups := by
  match groups, h with
  | g :: g' :: gs, _ =>
    rw [groupChars_cons_cons]
    exact List.mem_append_right _ List.mem_cons_self

theorem colon_mem_chars (address : Ipv6Addr) : ':' ∈ address.chars := by
  rw [chars]
  split
  · exact List.mem_append_left _ (by decide)
  · rw [compressedChars]
    dsimp only
    split
    · simp
    · exact colon_mem_groupChars (by simp)

end Ipv6Addr

/-! ## IPv6 networks -/

namespace Ipv6Net

theorem around_address (net : Ipv6Net) : around net.address net.length net.length_le = net := by
  obtain ⟨address, length, hle, hnet⟩ := net
  simp only [around, mk.injEq, and_true]
  exact hnet

theorem writtenWith_chars (net : Ipv6Net) : Text.WrittenWith [':', '.', '/'] net.chars := by
  have haddress : Text.WrittenWith [':', '.', '/'] net.address.chars :=
    net.address.writtenWith_chars.mono (by simp)
  exact haddress.append ((Text.writtenWith_decimal _ net.length).cons (by simp))

theorem ofChars?_chars (net : Ipv6Net) : ofChars? net.chars = some net := by
  have hparts : parts? net.chars = some (net.address, net.length) := by
    have hlength : net.length < 256 := by
      have := net.length_le
      omega
    have hslash : '/' ∉ net.address.chars :=
      net.address.writtenWith_chars.not_mem (by simp) fun d => Nat.digitChar_ne '/' rfl
    rw [parts?, net.writtenWith_chars.trim_eq_self rfl, chars, Text.cut?_append_cons hslash]
    simp [Ipv6Addr.ofChars?_chars, Text.numeral?_decimal hlength]
  rw [ofChars?, hparts]
  simp [net.length_le, around_address]

end Ipv6Net

/-! ## Networks of either family -/

namespace IpNet

theorem colon_mem_chars_iff (net : IpNet) : ':' ∈ net.chars ↔ net.isV6 := by
  cases net with
  | v4 net =>
    have hcolon : ':' ∉ net.chars :=
      net.writtenWith_chars.not_mem (by simp) fun d => Nat.digitChar_ne ':' rfl
    simpa [chars, isV6] using hcolon
  | v6 net => simp [chars, Ipv6Net.chars, isV6, Ipv6Addr.colon_mem_chars]

@[simp]
theorem parse_text (net : IpNet) : parse net.text = .ok net := by
  have hcolon := colon_mem_chars_iff net
  cases net with
  | v4 net =>
    have h4 : Ipv4Net.parse (text (v4 net)) = .ok net := Ipv4Net.parse_text net
    rw [parse, if_neg (by simpa [text, isV6] using hcolon), h4]
    rfl
  | v6 net =>
    rw [parse, if_pos (by simpa [text, isV6] using hcolon)]
    simp [text, chars, Ipv6Net.ofChars?_chars]

end IpNet

/-! ## Reading again -/

/-- A reader that reads back what is written reads the same again from the text of what it has read. -/
theorem read_written_eq {α : Type} {read : String → Except AddressError α} {text : α → String}
    (h : ∀ a, read (text a) = .ok a) (s : String) :
    ((read s).bind fun a => read (text a)) = read s := by
  cases hread : read s with
  | error e => rfl
  | ok a => exact h a

/-- Addresses, networks and port masks are read back from the texts that are written for them, and writing and
reading again changes nothing in what was read from a text. -/
theorem texts_read_back :
    (∀ mac : MacAddress, MacAddress.parse mac.text = .ok mac) ∧
      (∀ net : Ipv4Net, Ipv4Net.parse net.text = .ok net) ∧
      (∀ m : PortMask, PortMask.parse m.text = .ok m) ∧
      (∀ net : IpNet, IpNet.parse net.text = .ok net) ∧
      ∀ s : String,
        ((MacAddress.parse s).bind fun mac => MacAddress.parse mac.text) = MacAddress.parse s ∧
          ((Ipv4Net.parse s).bind fun net => Ipv4Net.parse net.text) = Ipv4Net.parse s ∧
          ((PortMask.parse s).bind fun m => PortMask.parse m.text) = PortMask.parse s ∧
          ((IpNet.parse s).bind fun net => IpNet.parse net.text) = IpNet.parse s :=
  ⟨MacAddress.parse_text, Ipv4Net.parse_text, PortMask.parse_text, IpNet.parse_text, fun s =>
    ⟨read_written_eq MacAddress.parse_text s, read_written_eq Ipv4Net.parse_text s,
      read_written_eq PortMask.parse_text s, read_written_eq IpNet.parse_text s⟩⟩

end ServiceChain
