import ServiceChain.Proofs.Classifier.Traffic
import ServiceChain.Proofs.Rule.Compiles

/-!
# The return traffic of a classifier

A reversed classifier has its networks exchanged and its ranges of ports kept, so what it selects is
the classifier's traffic with the addresses exchanged and the ports kept (`selects_reversed`).
Return traffic has its ports exchanged too.  It is what the reversed classifier selects in just the
case that both ranges mean the same ports (`reversed_mirrors_iff`), and that fails for a classifier
of one destination port (`not_reversed_mirrors`).
-/

namespace ServiceChain

namespace Packet

/-- The packet with its addresses exchanged. -/
def addressesSwapped (p : Packet) : Packet := { p with nwSrc := p.nwDst, nwDst := p.nwSrc }

/-- The packet with its ports exchanged. -/
def portsSwapped (p : Packet) : Packet := { p with tpSrc := p.tpDst, tpDst := p.tpSrc }

/-- The packet of the return traffic: addresses and ports are exchanged. -/
def mirrored (p : Packet) : Packet := p.portsSwapped.addressesSwapped

end Packet

namespace FlowClassifier

variable {fc : FlowClassifier} {sets back : List MatchFields}

/-- Some of the matches that a classifier is compiled to selects the packet. -/
def Matches (sets : List MatchFields) (p : Packet) : Prop :=
  ∃ fields ∈ sets, (fields.onPort none).selects p

/-- The ranges of both sides mean the same ports. -/
def SamePorts (fc : FlowClassifier) : Prop :=
  ∀ port, withinBounds fc.sourcePortMin fc.sourcePortMax port ↔
    withinBounds fc.destinationPortMin fc.destinationPortMax port

/-- The networks of a classifier are IPv4 ones. -/
structure IsV4 (fc : FlowClassifier) : Prop where
  etherType : fc.etherType = .ipv4
  source : ∀ net ∈ fc.sourceNet, ¬net.isV6
  destination : ∀ net ∈ fc.destinationNet, ¬net.isV6

theorem IsV4.reversed (h : fc.IsV4) : fc.reversed.IsV4 := ⟨h.etherType, h.destination, h.source⟩

theorem IsV4.exists_nets (h : fc.IsV4) : ∃ nets, fc.v4Nets? = some nets := by
  have hnet : ∀ net : Option IpNet, (∀ n ∈ net, ¬n.isV6) → ∃ v4, IpNet.v4OrAny? net = some v4 := by
    intro net hnet
    cases net with
    | none => exact ⟨Ipv4Net.any, rfl⟩
    | some n =>
      cases n with
      | v4 v4 => exact ⟨v4, rfl⟩
      | v6 v6 => exact absurd rfl (hnet (.v6 v6) rfl)
  obtain ⟨nwSrc, hsrc⟩ := hnet fc.sourceNet h.source
  obtain ⟨nwDst, hdst⟩ := hnet fc.destinationNet h.destination
  exact ⟨(nwSrc, nwDst), by simp [v4Nets?, hsrc, hdst]⟩

theorem IsV4.matchFields_eq_ok (h : fc.IsV4) :
    fc.matchFields = .ok sets ↔ ∃ nets sources destinations, fc.v4Nets? = some nets ∧
      boundMasks fc.sourcePortMin fc.sourcePortMax = .ok sources ∧
      boundMasks fc.destinationPortMin fc.destinationPortMax = .ok destinations ∧
      (sources.flatMap fun tpSrc => destinations.map fun tpDst =>
        { dlType := EtherType.ipv4Value, nwProto := fc.protocol.map IpProtocol.number,
          nwSrc := nets.1, nwDst := nets.2, tpSrc, tpDst }) = sets := by
  obtain ⟨nets, hnets⟩ := h.exists_nets
  unfold matchFields
  simp only [h.etherType, hnets, Except.bind_eq_ok, Except.pure_eq_ok, Option.some.injEq]
  constructor
  · rintro ⟨sources, hsources, destinations, hdestinations, rfl⟩
    exact ⟨nets, sources, destinations, rfl, hsources, hdestinations, rfl⟩
  · rintro ⟨_, sources, destinations, rfl, hsources, hdestinations, rfl⟩
    exact ⟨sources, hsources, destinations, hdestinations, rfl⟩

/-- A classifier that compiles does so in reverse. -/
theorem IsV4.exists_reversed (hv4 : fc.IsV4) (h : fc.matchFields = .ok sets) :
    ∃ back, fc.reversed.matchFields = .ok back := by
  obtain ⟨-, sources, destinations, -, hsources, hdestinations, -⟩ := hv4.matchFields_eq_ok.1 h
  obtain ⟨nets, hnets⟩ := hv4.reversed.exists_nets
  exact ⟨_, hv4.reversed.matchFields_eq_ok.2
    ⟨nets, sources, destinations, hnets, hsources, hdestinations, rfl⟩⟩

/-! ## What is selected -/

theorem matches_iff (hether : fc.etherType = .ipv4) (h : fc.matchFields = .ok sets) (p : Packet) :
    Matches sets p ↔ fc.selects p := by
  unfold Matches
  rw [exists_selects_iff hether h, Option.all_none]
  simp

/-- In reverse, networks are exchanged and ports are not. -/
theorem selects_reversed (p : Packet) : fc.reversed.selects p.addressesSwapped = fc.selects p := by
  unfold selects reversed Packet.addressesSwapped
  grind

/-- A range that has masks has a port. -/
theorem exists_withinBounds {min max : Option UInt16} {masks : List PortMask}
    (h : boundMasks min max = .ok masks) : ∃ port, withinBounds min max port := by
  obtain ⟨range, hrange, -⟩ := Except.map_eq_ok.1 (Except.mapError_eq_ok.1 h)
  cases range with
  | none => exact ⟨0, (PortRange.mem_of_ofBounds hrange 0).2 nofun⟩
  | some range =>
    refine ⟨range.min, (PortRange.mem_of_ofBounds hrange range.min).2 fun r hr => ?_⟩
    obtain rfl := Option.some.inj hr
    exact ⟨UInt16.le_refl _, range.min_le⟩

/-- There is traffic of the classifier between any ports of its ranges. -/
theorem IsV4.exists_traffic (h : fc.IsV4) {source destination : UInt16}
    (hsource : withinBounds fc.sourcePortMin fc.sourcePortMax source)
    (hdestination : withinBounds fc.destinationPortMin fc.destinationPortMax destination) :
    ∃ p : Packet, p.tpSrc = source ∧ p.tpDst = destination ∧ fc.selects p := by
  obtain ⟨⟨nwSrc, nwDst⟩, hnets⟩ := h.exists_nets
  let p : Packet := {
    inPort := 0, dlType := EtherType.ipv4Value, dlDst := default
    nwProto := (fc.protocol.map IpProtocol.number).getD 0
    nwSrc := nwSrc.address, nwDst := nwDst.address, tpSrc := source, tpDst := destination }
  have hcontains : ∀ net : Ipv4Net, net.contains net.address := by
    intro net
    simp [Ipv4Net.contains, net.network_eq]
  have haddresses : (fc.sourceNet.all (·.contains p.nwSrc) &&
      fc.destinationNet.all (·.contains p.nwDst)) = true := by
    rw [contains_of_v4Nets?, hnets]
    simp [p, hcontains]
  rw [Bool.and_eq_true] at haddresses
  have hproto : fc.protocol.all (·.number == p.nwProto) := by
    cases hprotocol : fc.protocol <;> simp [p, hprotocol]
  refine ⟨p, rfl, rfl, ?_⟩
  unfold selects
  rw [h.etherType, hproto, haddresses.1, haddresses.2, hsource, hdestination]
  rfl

/-- Exchanging the ports of its traffic leaves a classifier's traffic just if both ranges mean the
same ports. -/
theorem selects_portsSwapped_iff (hv4 : fc.IsV4) (h : fc.matchFields = .ok sets) :
    (∀ p : Packet, fc.selects p ↔ fc.selects p.portsSwapped) ↔ fc.SamePorts := by
  obtain ⟨-, sources, destinations, -, hsources, hdestinations, -⟩ := hv4.matchFields_eq_ok.1 h
  constructor
  · intro hswap port
    constructor
    · intro hsource
      obtain ⟨other, hother⟩ := exists_withinBounds hdestinations
      obtain ⟨p, rfl, rfl, hp⟩ := hv4.exists_traffic hsource hother
      have hback := (hswap p).1 hp
      simp only [selects, Packet.portsSwapped, Bool.and_eq_true] at hback
      exact hback.2
    · intro hdestination
      obtain ⟨other, hother⟩ := exists_withinBounds hsources
      obtain ⟨p, rfl, rfl, hp⟩ := hv4.exists_traffic hother hdestination
      have hback := (hswap p).1 hp
      simp only [selects, Packet.portsSwapped, Bool.and_eq_true] at hback
      exact hback.1.2
  · intro hsame p
    simp only [selects, Packet.portsSwapped, Bool.and_eq_true, hsame p.tpSrc, hsame p.tpDst,
      and_assoc, and_congr_right_iff]
    intros
    exact and_comm

/-! ## The matches of both directions -/

/-- What the reversed classifier selects is the traffic with its addresses exchanged, and it is the
return traffic, with its ports exchanged as well, just if both ranges mean the same ports. -/
theorem reversed_mirrors_iff (hv4 : fc.IsV4) (h : fc.matchFields = .ok sets) :
    ∃ back, fc.reversed.matchFields = .ok back ∧
      (∀ p, Matches sets p ↔ Matches back p.addressesSwapped) ∧
      ((∀ p, Matches sets p ↔ Matches back p.mirrored) ↔ fc.SamePorts) := by
  obtain ⟨back, hback⟩ := hv4.exists_reversed h
  have hforth : ∀ p, Matches sets p ↔ fc.selects p := matches_iff hv4.etherType h
  have hswapped : ∀ p : Packet, Matches back p.addressesSwapped ↔ fc.selects p := by
    intro p
    rw [matches_iff hv4.reversed.etherType hback, selects_reversed]
  refine ⟨back, hback, fun p => by rw [hforth, hswapped], ?_⟩
  simp only [Packet.mirrored, hforth, hswapped]
  exact selects_portsSwapped_iff hv4 h

/-- Both sides of it are restricted, to the same range. -/
def samplePeers : FlowClassifier where
  id := "peers"
  protocol := some .udp
  sourcePortMin := some 5000
  sourcePortMax := some 5005
  destinationPortMin := some 5000
  destinationPortMax := some 5005

theorem samplePeers_mirrors :
    ∃ sets back, samplePeers.matchFields = .ok sets ∧ samplePeers.reversed.matchFields = .ok back ∧
      ∀ p, Matches sets p ↔ Matches back p.mirrored := by
  have hv4 : samplePeers.IsV4 := ⟨rfl, nofun, nofun⟩
  have hbounded : samplePeers.Bounded := ⟨rfl, rfl⟩
  obtain ⟨sets, hsets⟩ := exists_matchFields hbounded
  obtain ⟨back, hback, -, hmirror⟩ := reversed_mirrors_iff hv4 hsets
  exact ⟨sets, back, hsets, hback, hmirror.2 fun port => Iff.rfl⟩

/-- Traffic to one port. -/
def sampleSsh : FlowClassifier where
  id := "ssh"
  protocol := some .tcp
  destinationPortMin := some 22
  destinationPortMax := some 22

/-- A request to that port. -/
def sampleLogin : Packet := { sampleRequest with tpSrc := 40000, tpDst := 22 }

/-- The answer to a request to one port comes from that port, and is not what the reversed classifier
selects. -/
theorem not_reversed_mirrors :
    ¬∀ (fc : FlowClassifier) (sets : List MatchFields), fc.IsV4 → fc.matchFields = .ok sets →
      ∃ back, fc.reversed.matchFields = .ok back ∧
        ∀ p, Matches sets p ↔ Matches back p.mirrored := by
  intro hall
  have hv4 : sampleSsh.IsV4 := ⟨rfl, nofun, nofun⟩
  have hbounded : sampleSsh.Bounded := ⟨rfl, rfl⟩
  obtain ⟨sets, hsets⟩ := exists_matchFields hbounded
  obtain ⟨back, hback, hmirror⟩ := hall sampleSsh sets hv4 hsets
  have hlogin := hmirror sampleLogin
  rw [matches_iff hv4.etherType hsets, matches_iff hv4.reversed.etherType hback] at hlogin
  exact absurd (hlogin.1 (by decide +kernel)) (by decide +kernel)

end FlowClassifier

end ServiceChain
