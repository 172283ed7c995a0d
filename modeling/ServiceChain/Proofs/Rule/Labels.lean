import Mathlib.Algebra.Group.Nat.Defs
import ServiceChain.Proofs.Bridge.Runs
import ServiceChain.Proofs.Rule.Inverse

/-!
# Entries under labels

Of all entries under MPLS labels, the removal of a rule takes those at the rule's ingress port under the
label of its hop, and no others (`removes_labelled_iff`).  A label has the index of the hop plus one in its
lowest eight bits and the number of the path above them.  At the head, whose index is 255, the one is carried
into the lowest bit of the path number and lost if that is set (`toNat_mplsLabel_of_head`).  So two
hops share a label just if they are the heads of two paths whose numbers differ in that bit
(`mplsLabel_eq_iff`), and only then one takes the entries of the other (`cleanup_spares_other_hops`).
-/

namespace ServiceChain

/-- An entry for packets under a label, on the way to the port with an address. -/
structure FlowKey.IsLabelled (key : FlowKey) (mac : MacAddress) (label : UInt32) : Prop where
  table : key.table = .chainIngress
  dlType : key.pattern.dlType = some EtherType.mplsUnicast
  dlDst : key.pattern.dlDst = some mac
  label : key.pattern.mplsLabel = some label

namespace FlowRule

open BridgeOp

variable {ctx : HostContext} {ports : PortTable} {r other : FlowRule} {ops : List BridgeOp}
  {key : FlowKey} {b : Bridge} {id : String} {port : Port} {actions : List FlowAction}

/-! ## Labels -/

theorem toNat_mplsLabel (h : r.nsp.toNat < 2 ^ 24) :
    r.mplsLabel.toNat = r.nsp.toNat <<< 8 ||| (r.nsi.toNat + 1) := by
  have hindex : r.nsi.toNat < 2 ^ 8 := r.nsi.toNat_lt
  have hshift : r.nsp.toNat <<< 8 < 2 ^ 32 := by
    rw [Nat.shiftLeft_eq]
    omega
  simp only [mplsLabel, UInt32.toNat_or, UInt32.toNat_shiftLeft, UInt32.toNat_add,
    UInt8.toNat_toUInt32]
  change r.nsp.toNat <<< 8 % 2 ^ 32 ||| (r.nsi.toNat + 1) % 2 ^ 32 = _
  rw [Nat.mod_eq_of_lt hshift, Nat.mod_eq_of_lt (by omega)]

/-- Behind the head, the index plus one fits below the path number. -/
theorem toNat_mplsLabel_of_ne (h : r.nsp.toNat < 2 ^ 24) (hindex : r.nsi ≠ 255) :
    r.mplsLabel.toNat = 256 * r.nsp.toNat + (r.nsi.toNat + 1) := by
  have hlt : r.nsi.toNat < 2 ^ 8 := r.nsi.toNat_lt
  have hne : r.nsi.toNat ≠ 255 := fun heq => hindex (UInt8.toNat_inj.1 heq)
  rw [toNat_mplsLabel h, Nat.shiftLeft_eq, Nat.mul_comm, ← Nat.two_pow_add_eq_or_of_lt (by omega)]

theorem lor_one (n : Nat) : n ||| 1 = 2 * (n / 2) + 1 := by
  have hbit : n % 2 ||| 1 = 1 := by
    rcases Nat.mod_two_eq_zero_or_one n with h | h <;> rw [h] <;> rfl
  calc n ||| 1
    _ = (2 ^ 1 * (n / 2) + n % 2) ||| 1 := by rw [Nat.pow_one, Nat.div_add_mod]
    _ = 2 ^ 1 * (n / 2) ||| (n % 2 ||| 1) := by
      rw [Nat.two_pow_add_eq_or_of_lt (by omega), Nat.or_assoc]
    _ = 2 * (n / 2) + 1 := by rw [hbit, ← Nat.two_pow_add_eq_or_of_lt (by decide), Nat.pow_one]

/-- At the head, the label has the path number with its lowest bit set, and nothing below. -/
theorem toNat_mplsLabel_of_head (h : r.nsp.toNat < 2 ^ 24) (hindex : r.nsi = 255) :
    r.mplsLabel.toNat = 256 * (2 * (r.nsp.toNat / 2) + 1) := by
  have hcarry : r.nsi.toNat + 1 = 1 <<< 8 := by
    rw [hindex]
    rfl
  rw [toNat_mplsLabel h, hcarry, ← Nat.shiftLeft_or_distrib, lor_one, Nat.shiftLeft_eq,
    Nat.mul_comm]

/-- Both rules are for heads, and the numbers of their paths differ at most in the lowest bit. -/
structure TwinHeads (r other : FlowRule) : Prop where
  nsi : r.nsi = 255
  other_nsi : other.nsi = 255
  nsp : r.nsp.toNat / 2 = other.nsp.toNat / 2

/-- Two hops have the same label if they are the same, or heads whose path numbers differ in the lowest bit,
and only then. -/
theorem mplsLabel_eq_iff (hr : r.nsp.toNat < 2 ^ 24) (hother : other.nsp.toNat < 2 ^ 24) :
    r.mplsLabel = other.mplsLabel ↔
      r.nsp = other.nsp ∧ r.nsi = other.nsi ∨ r.TwinHeads other := by
  have hlt : r.nsi.toNat < 2 ^ 8 := r.nsi.toNat_lt
  have hlt' : other.nsi.toNat < 2 ^ 8 := other.nsi.toNat_lt
  have hhead : ∀ index : UInt8, index = 255 ↔ index.toNat = 255 := fun index => UInt8.toNat_inj.symm
  have htwins : r.TwinHeads other ↔ r.nsi = 255 ∧ other.nsi = 255 ∧
      r.nsp.toNat / 2 = other.nsp.toNat / 2 :=
    ⟨fun ⟨hr, ho, hn⟩ => ⟨hr, ho, hn⟩, fun ⟨hr, ho, hn⟩ => ⟨hr, ho, hn⟩⟩
  rw [htwins, ← UInt32.toNat_inj, ← UInt32.toNat_inj, ← UInt8.toNat_inj, hhead, hhead]
  -- behind the head the lowest byte tells the index, and at the head it is zero
  by_cases h : r.nsi = 255 <;> by_cases h' : other.nsi = 255
  · rw [toNat_mplsLabel_of_head hr h, toNat_mplsLabel_of_head hother h']
    rw [hhead] at h h'
    omega
  · rw [toNat_mplsLabel_of_head hr h, toNat_mplsLabel_of_ne hother h']
    rw [hhead] at h h'
    omega
  · rw [toNat_mplsLabel_of_ne hr h, toNat_mplsLabel_of_head hother h']
    rw [hhead] at h h'
    omega
  · rw [toNat_mplsLabel_of_ne hr h, toNat_mplsLabel_of_ne hother h']
    rw [hhead] at h h'
    omega

/-! ## What a removal takes -/

/-- Of the entries under labels, a removal takes those under the label of its hop at its ingress port. -/
theorem removes_labelled_iff (h : r.removeOps ctx ports = .ok ops)
    (hkey : key.pattern.dlType = some EtherType.mplsUnicast) :
    (∃ op ∈ ops, op.removes key) ↔ r.IsStale ports key := by
  obtain ⟨full, hfull, hmem⟩ := exists_uninstallOps_of_removeOps h
  have hnot : key.pattern.dlType ≠ some EtherType.ipv4Value := by
    rw [hkey]
    decide
  constructor
  · rintro ⟨op, hop, hremoves⟩
    rcases (mem_uninstallOps hfull).1 ((hmem op).1 hop).1 with
      ⟨p, hp, entries, hentries, hop⟩ | hop | hop
    · -- the entries of the rule's passes match IPv4 traffic
      obtain ⟨entry, hentry, rfl⟩ := mem_flows.1 hop
      obtain rfl : entry.key = key := by simpa using hremoves
      have hnames : r.Names ctx ports r.delFcs r.removalPasses entry.key :=
        ⟨p, hp, entries, hentries, entry, hentry, rfl⟩
      exact absurd hnames.isPassKey.dlType hnot
    · exact removes_mplsCleanup.1 ⟨op, hop, hremoves⟩
    · -- and so do those of group members
      obtain ⟨group, rfl | ⟨member, -, rfl⟩⟩ := exists_of_mem_releaseOps hop
      · simp at hremoves
      · obtain rfl : NextHopGroup.memberKey member.mac = key := by simpa using hremoves
        exact absurd rfl hnot
  · intro hstale
    obtain ⟨op, hop, hremoves⟩ := removes_mplsCleanup.2 hstale
    refine ⟨op, (hmem op).2 ⟨(mem_uninstallOps hfull).2 (.inr (.inl hop)), ?_⟩, hremoves⟩
    obtain ⟨id, port, -, -, rfl⟩ := mem_mplsCleanup.1 hop
    simp [removesAny, key?]

/-- A removal, finished or stopped, leaves an entry under a label as it was unless it is one of those. -/
theorem flow_execute_of_not_isStale (h : r.removeOps ctx ports = .ok ops)
    (hkey : key.pattern.dlType = some EtherType.mplsUnicast) (hstale : ¬ r.IsStale ports key) :
    (b.execute ops).bridge.flow? key = b.flow? key := by
  rw [← removes_labelled_iff h hkey] at hstale
  push Not at hstale
  -- a run that is stopped is a run of the first operations
  obtain ⟨done, rest, rfl, hruns, -⟩ := Bridge.exists_runs_execute b ops
  rw [hruns.replayed.flow]
  apply entryAfter_of_untouched
  · exact fun op hop => not_adds_of_removal h op (List.mem_append_left rest hop)
  · exact fun op hop => by simpa using hstale op (List.mem_append_left rest hop)

/-- A removal that is finished takes those. -/
theorem flow_execute_of_isStale (h : r.removeOps ctx ports = .ok ops)
    (hkey : key.pattern.dlType = some EtherType.mplsUnicast) (hstale : r.IsStale ports key)
    (hfinished : (b.execute ops).failure = none) : (b.execute ops).bridge.flow? key = none := by
  rw [(Bridge.execute_replayed hfinished).flow]
  exact entryAfter_of_removes (not_adds_of_removal h) ((removes_labelled_iff h hkey).2 hstale) _

theorem isStale_iff_of_isLabelled (hid : r.ingress = some id) (hport : ports[id]? = some port)
    {label : UInt32} (hkey : key.IsLabelled port.mac label) :
    r.IsStale ports key ↔ r.mplsLabel = label := by
  constructor
  · rintro ⟨-, -, -, -, -, -, -, hlabel⟩
    exact Option.some.inj (hlabel.symm.trans hkey.label)
  · rintro rfl
    exact ⟨id, port, hid, hport, hkey.table, hkey.dlType, hkey.dlDst, hkey.label⟩

/-- The entries that another hop has under its label stay when the rule of a hop is removed, finished or
stopped, unless both are heads of paths whose numbers differ in the lowest bit.  Those lose them. -/
theorem cleanup_spares_other_hops (hr : r.nsp.toNat < 2 ^ 24) (hother : other.nsp.toNat < 2 ^ 24)
    (hapart : ¬ (r.nsp = other.nsp ∧ r.nsi = other.nsi)) (hid : r.ingress = some id)
    (hport : ports[id]? = some port) (hremove : r.removeOps ctx ports = .ok ops)
    (hkey : key.IsLabelled port.mac other.mplsLabel) (hflow : b.flow? key = some actions) :
    (¬ r.TwinHeads other → (b.execute ops).bridge.flow? key = some actions) ∧
      (r.TwinHeads other → (b.execute ops).failure = none →
        (b.execute ops).bridge.flow? key = none) := by
  have hstale : r.IsStale ports key ↔ r.TwinHeads other := by
    rw [isStale_iff_of_isLabelled hid hport hkey, mplsLabel_eq_iff hr hother, or_iff_right hapart]
  rw [← hstale, ← hflow]
  exact ⟨flow_execute_of_not_isStale hremove hkey.dlType,
    flow_execute_of_isStale hremove hkey.dlType⟩

/-! ## Heads of neighbouring paths -/

/-- The head of a path, for traffic that ends at a port of it. -/
def sampleArrival (nsp : UInt32) : FlowRule where
  id := "n1:d1"
  role := .source
  nsp
  nsi := 255
  ingress := some "p1"
  segment := ⟨103, by decide, by decide⟩
  delFcs := [{ id := "f", logicalDestination := some "p1" }]

/-- The port of the heads. -/
def sampleArrivalPort : Port := ⟨1, ⟨#v[2, 0, 0, 0, 4, 1]⟩⟩

/-- No other port is on the bridge. -/
def sampleArrivalPorts : PortTable := (∅ : PortTable).insert "p1" sampleArrivalPort

/-- The entry that was left for the head of a path at that port. -/
def sampleRelic (nsp : UInt32) : FlowKey :=
  ⟨.chainIngress, Priority.steering,
    { dlType := some EtherType.mplsUnicast, dlDst := some sampleArrivalPort.mac
      mplsLabel := some (sampleArrival nsp).mplsLabel }⟩

/-- A bridge with that entry. -/
def sampleRelicBridge (nsp : UInt32) : Bridge where
  flows := (∅ : FlowTable).insert (sampleRelic nsp) [.output 1]
  ports := sampleArrivalPorts

theorem sampleArrivalPorts_p1 : sampleArrivalPorts["p1"]? = some sampleArrivalPort := by
  simp [sampleArrivalPorts]

theorem flow_sampleRelicBridge (nsp : UInt32) :
    (sampleRelicBridge nsp).flow? (sampleRelic nsp) = some [.output 1] := by
  simp [sampleRelicBridge, Bridge.flow?]

theorem isLabelled_sampleRelic (nsp : UInt32) :
    (sampleRelic nsp).IsLabelled sampleArrivalPort.mac (sampleArrival nsp).mplsLabel :=
  ⟨rfl, rfl, rfl, rfl⟩

theorem sampleArrival_compiles :
    ∃ ops, (sampleArrival 3).removeOps ⟨"br-int", "h1", 99⟩ sampleArrivalPorts = .ok ops :=
  Except.exists_of_isOk (by decide +kernel)

/-- The labels of the heads of paths 3 and 4 are apart. -/
theorem sampleArrival_spares_next : ∃ ops,
    (sampleArrival 3).removeOps ⟨"br-int", "h1", 99⟩ sampleArrivalPorts = .ok ops ∧
      ((sampleRelicBridge 4).execute ops).bridge.flow? (sampleRelic 4) = some [.output 1] := by
  obtain ⟨ops, hops⟩ := sampleArrival_compiles
  have hpath : (sampleArrival 3).nsp.toNat < 2 ^ 24 := by decide
  have hnext : (sampleArrival 4).nsp.toNat < 2 ^ 24 := by decide
  obtain ⟨hspared, -⟩ := cleanup_spares_other_hops hpath hnext (by decide) rfl
    sampleArrivalPorts_p1 hops (isLabelled_sampleRelic 4) (flow_sampleRelicBridge 4)
  exact ⟨ops, hops, hspared fun htwins => absurd htwins.nsp (by decide)⟩

/-- The heads of paths 2 and 3 have the label 768 in common, so the removal of one takes the entry of the
other. -/
theorem not_cleanup_spares_other_hops :
    ¬ ∀ (ctx : HostContext) (r other : FlowRule) (b : Bridge) (id : String) (port : Port)
      (ops : List BridgeOp) (key : FlowKey) (actions : List FlowAction),
      r.nsp.toNat < 2 ^ 24 → other.nsp.toNat < 2 ^ 24 →
      ¬ (r.nsp = other.nsp ∧ r.nsi = other.nsi) → r.ingress = some id → b.ports[id]? = some port →
      r.removeOps ctx b.ports = .ok ops → key.IsLabelled port.mac other.mplsLabel →
      b.flow? key = some actions → (b.execute ops).bridge.flow? key = some actions := by
  intro hall
  obtain ⟨ops, hops⟩ := sampleArrival_compiles
  have hkept := hall ⟨"br-int", "h1", 99⟩ (sampleArrival 3) (sampleArrival 2) (sampleRelicBridge 2)
    "p1" _ ops (sampleRelic 2) [.output 1] (by decide) (by decide) (by decide) rfl
    sampleArrivalPorts_p1 hops (isLabelled_sampleRelic 2) (flow_sampleRelicBridge 2)
  have hlabel : (sampleArrival 3).mplsLabel = (sampleArrival 2).mplsLabel := by decide
  have hstale : (sampleArrival 3).IsStale sampleArrivalPorts (sampleRelic 2) :=
    (isStale_iff_of_isLabelled rfl sampleArrivalPorts_p1 (isLabelled_sampleRelic 2)).2 hlabel
  have hgone := flow_execute_of_isStale (b := sampleRelicBridge 2) hops rfl hstale
    (Bridge.execute_ok rfl ops)
  rw [hgone] at hkept
  cases hkept

end FlowRule

end ServiceChain
