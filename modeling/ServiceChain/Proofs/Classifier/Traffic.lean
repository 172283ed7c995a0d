import Mathlib.Data.List.Nodup
import ServiceChain.Classifier.MatchFields
import ServiceChain.Proofs.Classifier.Blocks
import ServiceChain.Proofs.Except

/-!
# The traffic of a classifier

A match selects a packet when every field that it names agrees with the packet
(`FlowMatch.selects`); what a classifier selects is told without masks, from its networks and from
the ranges that its bounds mean (`FlowClassifier.selects`).  The matches that a classifier is
compiled to are exact: a packet is selected by one of them if it is traffic of the classifier, else
by none (`countP_matches`), and no two of them are equal (`matches_exact`).
-/

namespace ServiceChain

/-! ## Packets -/

/-- The header of a packet, as far as a match can look at it. -/
structure Packet where
  inPort : UInt32
  dlType : UInt16
  /-- The VLAN tag, if there is one. -/
  dlVlan : Option UInt16 := none
  dlDst : MacAddress
  mplsLabel : Option UInt32 := none
  nwProto : UInt8
  nwSrc : Ipv4Addr
  nwDst : Ipv4Addr
  tpSrc : UInt16
  tpDst : UInt16
  deriving DecidableEq, Repr

/-- Every field that the match names agrees with the packet. -/
def FlowMatch.selects (m : FlowMatch) (p : Packet) : Bool :=
  m.inPort.all (· == p.inPort) && m.dlType.all (· == p.dlType) &&
    m.dlVlan.all (some · == p.dlVlan) && m.dlDst.all (· == p.dlDst) &&
    m.mplsLabel.all (some · == p.mplsLabel) && m.nwProto.all (· == p.nwProto) &&
    m.nwSrc.all (·.contains p.nwSrc) && m.nwDst.all (·.contains p.nwDst) &&
    m.tpSrc.all (·.covers p.tpSrc) && m.tpDst.all (·.covers p.tpDst)

/-- The address lies in the network; an IPv6 one has no IPv4 addresses. -/
def IpNet.contains (net : IpNet) (address : Ipv4Addr) : Bool :=
  match net with
  | .v4 net => net.contains address
  | .v6 _ => false

/-- The port lies in the range that two bounds mean, a bound of zero being none: without bounds,
any port; with an upper bound alone, from 1 to it; with a lower bound alone, from it on. -/
def withinBounds (min max : Option UInt16) (port : UInt16) : Bool :=
  match min.filter (· != 0), max.filter (· != 0) with
  | none, none => true
  | none, some hi => 1 ≤ port && port ≤ hi
  | some lo, none => lo ≤ port
  | some lo, some hi => lo ≤ port && port ≤ hi

namespace FlowClassifier

/-- The packet is traffic of the classifier: of its address family and its protocol, between its
networks, and with both ports in its ranges. -/
def selects (fc : FlowClassifier) (p : Packet) : Bool :=
  fc.etherType.value == p.dlType && fc.protocol.all (·.number == p.nwProto) &&
    fc.sourceNet.all (·.contains p.nwSrc) && fc.destinationNet.all (·.contains p.nwDst) &&
    withinBounds fc.sourcePortMin fc.sourcePortMax p.tpSrc &&
    withinBounds fc.destinationPortMin fc.destinationPortMax p.tpDst

end FlowClassifier

/-! ## Ranges -/

namespace PortRange

theorem of_eq_ok {lo hi : UInt16} {range : PortRange} (h : of lo hi = .ok range) :
    range.min = lo ∧ range.max = hi := by
  unfold of at h
  split at h
  · cases h
    exact ⟨rfl, rfl⟩
  · cases h

/-- A port lies in the range of two bounds as they mean it; without a range, any port does. -/
theorem mem_of_ofBounds {min max : Option UInt16} {range : Option PortRange}
    (h : ofBounds min max = .ok range) (port : UInt16) :
    withinBounds min max port ↔ ∀ r ∈ range, r.min ≤ port ∧ port ≤ r.max := by
  have hlast : port ≤ 0xffff := by
    rw [UInt16.le_iff_toNat_le]
    exact Nat.le_of_lt_succ port.toNat_lt
  unfold ofBounds at h
  unfold withinBounds
  generalize min.filter (· != 0) = lo at h ⊢
  generalize max.filter (· != 0) = hi at h ⊢
  cases lo with
  | none =>
    cases hi with
    | none =>
      cases h
      simp
    | some hi =>
      obtain ⟨r, hr, rfl⟩ := Except.map_eq_ok.1 h
      obtain ⟨hmin, rfl⟩ := of_eq_ok hr
      simp [hmin]
  | some lo =>
    cases hi with
    | none =>
      obtain ⟨r, hr, rfl⟩ := Except.map_eq_ok.1 h
      obtain ⟨rfl, hmax⟩ := of_eq_ok hr
      simp [hmax, hlast]
    | some hi =>
      obtain ⟨r, hr, rfl⟩ := Except.map_eq_ok.1 h
      obtain ⟨rfl, rfl⟩ := of_eq_ok hr
      simp

end PortRange

namespace PortMask

theorem covers_value (m : PortMask) : m.covers m.value := by
  simp [covers, m.value_and_mask]

theorem covers_of_isWildcard {m : PortMask} (h : m.isWildcard) (port : UInt16) : m.covers port := by
  have hmask : m.mask = 0 := by simpa [isWildcard] using h
  have hvalue : m.value = 0 := by simpa [hmask] using m.value_and_mask.symm
  simp [covers, hmask, hvalue]

/-- Leaving out a wildcard changes nothing. -/
theorem all_covers_field (m : PortMask) (port : UInt16) :
    (if m.isWildcard then none else some m).all (·.covers port) = m.covers port := by
  split
  · rename_i hwild
    rw [covers_of_isWildcard hwild, Option.all_none]
  · rw [Option.all_some]

end PortMask

/-- The IPv4 network that a selector means holds its addresses. -/
theorem IpNet.all_contains (net : Option IpNet) (address : Ipv4Addr) :
    net.all (·.contains address) = (v4OrAny? net).any (·.contains address) := by
  cases net with
  | none => simp [v4OrAny?, Ipv4Net.any, Ipv4Net.around, Ipv4Net.contains, network, netmask]
  | some net => cases net <;> simp [v4OrAny?, v4?, contains]

namespace FlowClassifier

/-- A port in the range of two bounds is covered by exactly one of their masks, and any other port by
none. -/
theorem countP_boundMasks {min max : Option UInt16} {masks : List PortMask}
    (h : boundMasks min max = .ok masks) (port : UInt16) :
    masks.countP (·.covers port) = if withinBounds min max port then 1 else 0 := by
  obtain ⟨range, hrange, rfl⟩ := Except.map_eq_ok.1 (Except.mapError_eq_ok.1 h)
  simp only [PortRange.mem_of_ofBounds hrange]
  cases range with
  | none =>
    have hany : PortMask.wildcard.covers port := PortMask.covers_of_isWildcard rfl port
    simp [hany]
  | some range => simp [PortRange.countP_masks]

end FlowClassifier

/-! ## Matches -/

namespace MatchFields

/-- The match of a port, if one is given, and of header fields. -/
def onPort (inPort : Option UInt32) (fields : MatchFields) : FlowMatch :=
  fields.restrict { inPort := inPort }

/-- Leaving out a wildcard changes nothing: fields select by all they hold. -/
theorem selects_onPort (inPort : Option UInt32) (fields : MatchFields) (p : Packet) :
    (fields.onPort inPort).selects p =
      (inPort.all (· == p.inPort) && (fields.dlType == p.dlType) &&
        fields.nwProto.all (· == p.nwProto) && fields.nwSrc.contains p.nwSrc &&
        fields.nwDst.contains p.nwDst && fields.tpSrc.covers p.tpSrc &&
        fields.tpDst.covers p.tpDst) := by
  simp only [onPort, restrict, FlowMatch.selects, FlowMatch.withTpSrc, FlowMatch.withTpDst,
    PortMask.all_covers_field, Option.all_some, Option.all_none, Bool.and_true]

/-- Fields select the packet that is made of them. -/
theorem exists_selects_onPort (inPort : Option UInt32) (fields : MatchFields) :
    ∃ p, (fields.onPort inPort).selects p := by
  refine ⟨{
    inPort := inPort.getD 0, dlType := fields.dlType, dlDst := default
    nwProto := fields.nwProto.getD 0, nwSrc := fields.nwSrc.address, nwDst := fields.nwDst.address
    tpSrc := fields.tpSrc.value, tpDst := fields.tpDst.value }, ?_⟩
  rw [selects_onPort]
  cases inPort <;> cases hproto : fields.nwProto <;>
    simp [PortMask.covers_value, Ipv4Net.contains, Ipv4Net.network_eq]

end MatchFields

/-- Pairs are counted by counting both sides. -/
theorem countP_flatMap_map {α β γ : Type} {f : α → β → γ} {q : γ → Bool} {s : α → Bool}
    {d : β → Bool} (h : ∀ a b, q (f a b) = (s a && d b)) (as : List α) (bs : List β) :
    (as.flatMap fun a => bs.map (f a)).countP q = as.countP s * bs.countP d := by
  induction as with
  | nil => simp
  | cons a as ih =>
    have hrow : (bs.map (f a)).countP q = if s a then bs.countP d else 0 := by
      rw [List.countP_map]
      cases ha : s a <;> simp [Function.comp_def, h, ha]
    rw [List.flatMap_cons, List.countP_append, hrow, ih, List.countP_cons]
    cases s a <;> simp [Nat.add_mul, Nat.add_comm]

/-- Values of which each is told apart by some test that passes at most once are distinct. -/
theorem nodup_of_countP_le_one {α β : Type} [DecidableEq α] {q : β → α → Bool} {as : List α}
    (hsome : ∀ a ∈ as, ∃ b, q b a) (hone : ∀ b, as.countP (q b) ≤ 1) : as.Nodup := by
  rw [List.nodup_iff_count_le_one]
  intro a
  by_cases ha : a ∈ as
  · obtain ⟨b, hb⟩ := hsome a ha
    refine Nat.le_trans ?_ (hone b)
    apply List.countP_mono_left
    intro a' _ heq
    rwa [beq_iff_eq.1 heq]
  · rw [List.count_eq_zero_of_not_mem ha]
    exact Nat.zero_le 1

namespace FlowClassifier

variable {fc : FlowClassifier} {sets : List MatchFields}

/-- The networks of a classifier hold what the IPv4 networks that they stand for hold. -/
theorem contains_of_v4Nets? (fc : FlowClassifier) (p : Packet) :
    (fc.sourceNet.all (·.contains p.nwSrc) && fc.destinationNet.all (·.contains p.nwDst)) =
      fc.v4Nets?.any fun (nwSrc, nwDst) => nwSrc.contains p.nwSrc && nwDst.contains p.nwDst := by
  simp only [v4Nets?, IpNet.all_contains]
  cases IpNet.v4OrAny? fc.sourceNet <;> cases IpNet.v4OrAny? fc.destinationNet <;> simp

/-- A packet is selected by exactly one match of a classifier if it is its traffic and enters on the
given port, else by none. -/
theorem countP_matches (hether : fc.etherType = .ipv4) (h : fc.matchFields = .ok sets)
    (inPort : Option UInt32) (p : Packet) :
    (sets.map (·.onPort inPort)).countP (·.selects p) =
      if fc.selects p && inPort.all (· == p.inPort) then 1 else 0 := by
  have hnets := fc.contains_of_v4Nets? p
  unfold matchFields at h
  rw [hether] at h
  cases hv4 : fc.v4Nets? with
  | none =>
    rw [hv4] at h hnets
    cases h
    have hnone : fc.selects p = false := by
      unfold selects
      rw [Option.any_none] at hnets
      grind
    simp [hnone]
  | some nets =>
    obtain ⟨nwSrc, nwDst⟩ := nets
    rw [hv4] at h hnets
    simp only [Except.bind_eq_ok, Except.pure_eq_ok] at h
    obtain ⟨sources, hsources, destinations, hdestinations, rfl⟩ := h
    -- what does not depend on the masks is asked of the source side
    let outer : Bool := inPort.all (· == p.inPort) && (EtherType.ipv4Value == p.dlType) &&
      fc.protocol.all (·.number == p.nwProto) && nwSrc.contains p.nwSrc && nwDst.contains p.nwDst
    rw [List.countP_map, countP_flatMap_map (s := fun tpSrc => outer && tpSrc.covers p.tpSrc)
      (d := fun tpDst => tpDst.covers p.tpDst)]
    · have hselects : (fc.selects p && inPort.all (· == p.inPort)) =
          (outer && withinBounds fc.sourcePortMin fc.sourcePortMax p.tpSrc &&
            withinBounds fc.destinationPortMin fc.destinationPortMax p.tpDst) := by
        rw [Option.any_some] at hnets
        unfold selects
        rw [hether]
        grind [EtherType.value]
      rw [hselects, countP_boundMasks hdestinations]
      cases outer with
      | false => simp
      | true =>
        simp only [Bool.true_and]
        rw [countP_boundMasks hsources]
        cases withinBounds fc.sourcePortMin fc.sourcePortMax p.tpSrc <;>
          cases withinBounds fc.destinationPortMin fc.destinationPortMax p.tpDst <;> rfl
    · intro tpSrc tpDst
      rw [Function.comp_apply, MatchFields.selects_onPort, Option.all_map]

/-- The classifier's traffic on the given port is what its matches select. -/
theorem exists_selects_iff (hether : fc.etherType = .ipv4) (h : fc.matchFields = .ok sets)
    (inPort : Option UInt32) (p : Packet) :
    (∃ fields ∈ sets, (fields.onPort inPort).selects p) ↔
      fc.selects p ∧ inPort.all (· == p.inPort) := by
  have hcount := countP_matches hether h inPort p
  have hpos : (∃ fields ∈ sets, (fields.onPort inPort).selects p) ↔
      0 < (sets.map (·.onPort inPort)).countP (·.selects p) := by
    simp [List.countP_pos_iff]
  rw [hpos, hcount, ← Bool.and_eq_true]
  split <;> simp_all

/-- Where a packet is traffic of the classifier and enters on the given port, exactly one of the
matches selects it, and elsewhere none does; no two of the matches are equal. -/
theorem matches_exact (hether : fc.etherType = .ipv4) (h : fc.matchFields = .ok sets)
    (inPort : Option UInt32) :
    (∀ p : Packet,
      (fc.selects p ∧ (∀ port ∈ inPort, p.inPort = port) →
        (sets.map (·.onPort inPort)).countP (·.selects p) = 1) ∧
      (¬(fc.selects p ∧ ∀ port ∈ inPort, p.inPort = port) →
        ∀ m ∈ sets.map (·.onPort inPort), ¬m.selects p)) ∧
      (sets.map (·.onPort inPort)).Nodup := by
  have hport : ∀ p : Packet, inPort.all (· == p.inPort) ↔ ∀ port ∈ inPort, p.inPort = port := by
    intro p
    cases inPort with
    | none => simp
    | some port => simpa using eq_comm
  refine ⟨fun p => ⟨fun hin => ?_, fun hout m hm hselects => ?_⟩, ?_⟩
  · rw [countP_matches hether h, if_pos]
    rw [Bool.and_eq_true, hport]
    exact hin
  · have hnone : (sets.map (·.onPort inPort)).countP (·.selects p) = 0 := by
      rw [countP_matches hether h, if_neg]
      rw [Bool.and_eq_true, hport]
      exact hout
    exact List.countP_eq_zero.1 hnone m hm hselects
  · -- matches that select a packet in common would both be counted for it
    apply nodup_of_countP_le_one (q := fun p m => FlowMatch.selects m p)
    · intro m hm
      obtain ⟨fields, -, rfl⟩ := List.mem_map.1 hm
      exact fields.exists_selects_onPort inPort
    · intro p
      rw [countP_matches hether h]
      split
      · exact Nat.le_refl 1
      · exact Nat.zero_le 1

/-- Web traffic from one network, with two blocks of ports at its destination. -/
def sampleWeb : FlowClassifier where
  id := "web"
  protocol := some .tcp
  sourcePortMin := some 1000
  sourcePortMax := some 1001
  destinationPortMin := some 80
  destinationPortMax := some 84
  sourceNet := some (.v4 (.around ⟨0x0a000000⟩ 24 (by decide)))

/-- A packet of that traffic, to the last port of the range. -/
def sampleRequest : Packet where
  inPort := 11
  dlType := EtherType.ipv4Value
  dlDst := ⟨#v[2, 0, 0, 0, 1, 1]⟩
  nwProto := 6
  nwSrc := ⟨0x0a000007⟩
  nwDst := ⟨0x0a000109⟩
  tpSrc := 1001
  tpDst := 84

theorem sampleWeb_matches_once :
    ∃ sets, sampleWeb.matchFields = .ok sets ∧ sets.length = 2 ∧
      (sets.map (·.onPort (some 11))).countP (·.selects sampleRequest) = 1 := by
  have hsets : (sampleWeb.matchFields.toOption.map List.length) = some 2 := by decide +kernel
  cases h : sampleWeb.matchFields with
  | error e => simp [h, Except.toOption] at hsets
  | ok sets =>
    have hexact := (matches_exact rfl h (some 11)).1 sampleRequest
    have hrequest : sampleWeb.selects sampleRequest := by decide +kernel
    have hport : ∀ port ∈ some 11, sampleRequest.inPort = port := by
      rintro port ⟨⟩
      rfl
    exact ⟨sets, rfl, by simpa [h, Except.toOption] using hsets, hexact.1 ⟨hrequest, hport⟩⟩

end FlowClassifier

end ServiceChain
