import ServiceChain.Proofs.Rule.Effect

/-!
# The rules of a head

A rule of the head that leads to no group is about the traffic of one port: each key that it installs
matches the address of the port, or leaves the address open and matches the port's number
(`IsHeadAt.isAt_of_adds`).  It touches no group (`IsHeadAt.groupAfter`).
-/

namespace ServiceChain

/-- The key is about the traffic of a port. -/
def FlowKey.IsAt (key : FlowKey) (port : Port) : Prop :=
  key.pattern.dlDst = some port.mac ∨
    key.pattern.dlDst = none ∧ key.pattern.inPort = some port.number

theorem FlowKey.IsAt.mac_or_number {key : FlowKey} {a b : Port} (ha : key.IsAt a) (hb : key.IsAt b) :
    a.mac = b.mac ∨ a.number = b.number := by
  rcases ha with ha | ⟨hopen, ha⟩ <;> rcases hb with hb | ⟨hopen', hb⟩
  · exact .inl (Option.some.inj (ha.symm.trans hb))
  · cases ha.symm.trans hopen'
  · cases hb.symm.trans hopen
  · exact .inr (Option.some.inj (ha.symm.trans hb))

namespace FlowRule

variable {ctx : HostContext} {ports : PortTable} {r : FlowRule} {fcs : List FlowClassifier}
  {entries : List FlowEntry} {entry : FlowEntry} {key : FlowKey} {ops : List BridgeOp}
  {id : String} {port : Port}

/-- A rule of the head for one port, which leads to no group. -/
structure IsHeadAt (ports : PortTable) (r : FlowRule) (id : String) (port : Port) : Prop where
  role : r.role = .source
  group : r.activeGroup = none
  attached : ports[id]? = some port
  ingress : r.ingress = none ∨ r.ingress = some id
  egress : r.egress = none ∨ r.egress = some id

theorem IsHeadAt.seenBy (h : r.IsHeadAt ports id port) (p : Pass) :
    (r.seenBy p).IsHeadAt ports id port := by
  obtain ⟨side, isReverse⟩ := p
  cases isReverse with
  | false => exact h
  | true =>
    have hsides : r.reversed.ingress = r.egress ∧ r.reversed.egress = r.ingress := by
      simp [reversed, h.role]
    show r.reversed.IsHeadAt ports id port
    refine ⟨h.role, h.group, h.attached, ?_, ?_⟩
    · rw [hsides.1]
      exact h.egress
    · rw [hsides.2]
      exact h.ingress

theorem IsHeadAt.isAt_of_egress (h : r.IsHeadAt ports id port) (hegress : r.egress.isSome)
    (hentries : r.egressEntries ctx ports fcs = .ok entries) (hentry : entry ∈ entries) :
    entry.key.IsAt port := by
  have hport : r.egress = some id := h.egress.resolve_left fun hnone => by simp [hnone] at hegress
  obtain ⟨classification, source, hclassify, -, hsource, rfl⟩ := egressEntries_eq_ok.1 hentries
  rcases List.mem_append.1 hentry with hentry | hentry
  · -- traffic is classified by the number of the port
    obtain ⟨fc, -, inPort, sets, hinbound, -, fields, -, rfl⟩ :=
      (mem_classificationEntries (hclassify h.role)).1 hentry
    have hin : inPort = some port.number := by
      simpa [inboundPort, hport, h.attached] using hinbound.symm
    exact .inr ⟨rfl, hin⟩
  · rcases (mem_sourceEntries h.group hsource).1 hentry with
      ⟨inPort, -, hreturn⟩ | ⟨mac, hmac, fc, -, hsteer⟩
    · simp [returnEntries, h.role] at hreturn
    · -- and steered under the address of the port
      obtain ⟨nwDst, -, rfl⟩ := Option.map_eq_some_iff.1 hsteer
      have hfound : (r.ingress.bind (ports[·]?)).or (r.egress.bind (ports[·]?)) = some port := by
        rcases h.ingress with hnone | hsome
        · simp [hnone, hport, h.attached]
        · simp [hsome, h.attached]
      have hmac : port.mac = mac := by simpa [nodeMac, hfound] using hmac
      exact .inl (congrArg some hmac.symm)

theorem IsHeadAt.isAt_of_ingress (h : r.IsHeadAt ports id port)
    (hentries : r.destinationEntries ctx ports fcs = .ok entries) (hentry : entry ∈ entries) :
    entry.key.IsAt port := by
  obtain ⟨port', hport, hcases⟩ := (mem_destinationEntries h.group hentries).1 hentry
  obtain rfl : port = port' := by
    rcases h.ingress with hnone | hsome
    · simp [ingressPort, hnone] at hport
    · simpa [ingressPort, hsome, h.attached] using hport
  rcases hcases with ⟨fc, -, hdeliver⟩ | ⟨-, rfl⟩
  · obtain ⟨nwDst, -, rfl⟩ := Option.map_eq_some_iff.1 hdeliver
    exact .inl rfl
  · exact .inl rfl

theorem IsHeadAt.isAt_of_names (h : r.IsHeadAt ports id port)
    (hnames : r.Names ctx ports fcs r.installPasses key) : key.IsAt port := by
  obtain ⟨⟨side, isReverse⟩, hp, entries, hentries, entry, hentry, rfl⟩ := hnames
  cases side with
  | ingress => exact (h.seenBy _).isAt_of_ingress hentries hentry
  | egress =>
    refine (h.seenBy _).isAt_of_egress ?_ hentries hentry
    rw [mem_installPasses] at hp
    cases isReverse with
    | false => exact hp
    | true => simpa [FlowRule.seenBy, reversed, h.role] using hp.2

theorem IsHeadAt.groupSet (h : r.IsHeadAt ports id port) : r.groupSet = none := by
  rw [FlowRule.groupSet, h.group]
  rfl

/-- What a rule of the head adds is about the traffic of its port. -/
theorem IsHeadAt.isAt_of_adds (h : r.IsHeadAt ports id port) (hops : r.installOps ctx ports = .ok ops)
    (hadds : ∃ op ∈ ops, op.adds key) : key.IsAt port := by
  rcases (adds_installOps hops).1 hadds with hnames | ⟨group, hset, -⟩
  · exact h.isAt_of_names hnames
  · cases h.groupSet.symm.trans hset

theorem IsHeadAt.groupAfter (h : r.IsHeadAt ports id port) (hops : r.installOps ctx ports = .ok ops)
    (groupId : UInt32) (v : Option GroupSpec) : BridgeOp.groupAfter ops groupId v = v := by
  rw [groupAfter_installOps hops, h.groupSet]

end FlowRule

end ServiceChain
