import ServiceChain.Proofs.Topology.Bookkeeping
import ServiceChain.Proofs.Topology.Mirroring
import ServiceChain.Proofs.Topology.Order
import ServiceChain.Proofs.Topology.Recreating

/-!
# What the rules of a chain carry

A live chain has one rule for each detail with a host that is associated with one of its nodes, and no other
(`Topology.hosted`).  A rule of a service function carries all classifiers of the chain; the rules of the
head share them out by their logical ports, so that none is lost and none is at a port that it does not name
(`Topology.rules_carry_classifiers`).  In a rule a classifier is filled in by what is known of its logical
ports (`FlowClassifier.Completes`).

The rules are built from the lists of the nodes, and these are in the order of the associations
(`Topology.Reachable.ordered`).  Each rule keeps the place that it was built for, so what is picked out of
the places by node and ports is picked out of the rules by the same (`Topology.forall₂_hosted`).
-/

namespace ServiceChain

/-! ## Classifiers in rules -/

/-- The network has the one address, with all 32 bits. -/
def IpNet.IsHost (address : Ipv4Addr) (net : IpNet) : Prop :=
  ∃ host : Ipv4Net, host.address = address ∧ host.length = 32 ∧ net = .v4 host

theorem IpNet.isHost_host (address : Ipv4Addr) : IsHost address (.v4 (Ipv4Net.host address)) :=
  ⟨Ipv4Net.host address, congrArg Ipv4Addr.mk (network_full address.bits), rfl, rfl⟩

namespace FlowClassifier

/-- One end of a classifier is filled in: where its logical port is bound, by the MAC address of the binding
and, if the network was left open, by the network of the fixed address alone.  Where it is not bound, the end
is as it was. -/
def EndCompletes (env : TopologyEnv) (port : Option String) (mac mac' : Option MacAddress)
    (net net' : Option IpNet) : Prop :=
  match port.bind env.store.binding? with
  | none => mac' = mac ∧ net' = net
  | some binding => mac' = some binding.mac ∧ (net.isSome → net' = net) ∧
      (net = none → Option.Rel IpNet.IsHost binding.fixedIp net')

/-- Both ends of a classifier are filled in, and the rest of it is as it was. -/
structure Completes (env : TopologyEnv) (fc fc' : FlowClassifier) : Prop where
  source : EndCompletes env fc.logicalSource fc.sourceMac fc'.sourceMac fc.sourceNet fc'.sourceNet
  destination : EndCompletes env fc.logicalDestination fc.destinationMac fc'.destinationMac
    fc.destinationNet fc'.destinationNet
  rest : fc' =
    { fc with
      sourceMac := fc'.sourceMac
      sourceNet := fc'.sourceNet
      destinationMac := fc'.destinationMac
      destinationNet := fc'.destinationNet }

theorem endCompletes_or (env : TopologyEnv) (port : Option String) (mac : Option MacAddress)
    (net : Option IpNet) :
    EndCompletes env port mac (((port.bind env.store.binding?).map PortBinding.mac).or mac) net
      (net.or (((port.bind env.store.binding?).bind PortBinding.fixedIp).map
        (.v4 ∘ Ipv4Net.host))) := by
  unfold EndCompletes
  cases port.bind env.store.binding? with
  | none => cases net <;> exact ⟨rfl, rfl⟩
  | some binding =>
    cases net with
    | some net => exact ⟨rfl, fun _ => rfl, nofun⟩
    | none =>
      refine ⟨rfl, nofun, fun _ => ?_⟩
      cases hfixed : binding.fixedIp with
      | none => simp [hfixed]
      | some address => simpa [hfixed] using IpNet.isHost_host address

theorem completes_enrich (env : TopologyEnv) (fc : FlowClassifier) :
    fc.Completes env (Topology.enrich env fc) where
  source := endCompletes_or env fc.logicalSource fc.sourceMac fc.sourceNet
  destination := endCompletes_or env fc.logicalDestination fc.destinationMac fc.destinationNet
  rest := rfl

end FlowClassifier


/-! ## Rules and their places -/

/-- The rule installs a detail at a node, with the VLAN id of the detail, and takes nothing away. -/
structure FlowRule.IsFor (t : Topology) (node : PathNode) (d : PortDetail) (rule : FlowRule) :
    Prop where
  id : rule.id = node.id ++ ":" ++ d.id
  role : rule.role = node.role
  nsp : rule.nsp = node.nsp
  nsi : rule.nsi = node.nsi
  ingress : rule.ingress = d.ingress
  egress : rule.egress = d.egress
  host : rule.host = d.host
  segment : t.HasSegment d rule.segment
  nextGroup : rule.nextGroup = node.nextGroup
  reversePath : rule.reversePath = node.reversePath
  delFcs : rule.delFcs = []
  groupRefs : rule.groupRefs = none
  sharedWith : rule.sharedWith = []

/-- The details with a host of a path, each with its node: the nodes in the order of the path, and the details
of each in the order of the associations. -/
def Topology.hosted (t : Topology) (path : ChainPath) : List (PathNode × PortDetail) :=
  (path.nodes.flatMap fun node =>
    ((t.bookedAt node.id).filterMap (t.details[·]?)).map (node, ·)).filter (·.2.host.isSome)

/-- The rules of a path carry its classifiers: there is one rule for each detail with a host, the rules of
service functions carry all classifiers, and for each logical port with a host the head has one rule, which
carries the classifiers that name the port. -/
structure ChainPath.Carries (env : TopologyEnv) (t : Topology) (path : ChainPath)
    (rules : List FlowRule) : Prop where
  listed : ∀ node ∈ path.nodes, ∀ id ∈ t.bookedAt node.id, ∃ d, t.details[id]? = some d ∧ d.id = id
  hosted_nodup : (t.hosted path).Nodup
  places : List.Forall₂ (fun place rule => rule.IsFor t place.1 place.2) (t.hosted path) rules
  recorded : ∀ fc ∈ path.classifiers, ∃ id, env.store.classifier? id = some fc
  completed : ∀ rule ∈ rules, ∀ fc' ∈ rule.addFcs, ∃ fc ∈ path.classifiers, fc.Completes env fc'
  hops : ∀ rule ∈ rules, rule.role = .serviceFunction →
    List.Forall₂ (FlowClassifier.Completes env) path.classifiers rule.addFcs
  heads : ∀ rule ∈ rules, rule.role = .source → ∃ fc ∈ path.classifiers, ∃ port,
    fc.logicalSource = some port ∧ rule.ingress = none ∧ rule.egress = some port ∨
      fc.logicalDestination = some port ∧ rule.ingress = some port ∧ rule.egress = none
  sources : ∀ fc ∈ path.classifiers, ∀ port, fc.logicalSource = some port →
    ∃ id ∈ t.bookedAt path.head.id, ∃ d, t.details[id]? = some d ∧ d.IsEgressOnly port ∧
      (∀ (id' : String) (d' : PortDetail), t.details[id']? = some d' → d'.IsEgressOnly port → d' = d) ∧
      (d.host.isSome → ∃ rule,
        rules.filter (fun rule => rule.role == .source && rule.egress == some port) = [rule] ∧
          List.Forall₂ (FlowClassifier.Completes env)
            (path.classifiers.filter (·.logicalSource == some port)) rule.addFcs)
  destinations : ∀ fc ∈ path.classifiers, ∀ port, fc.logicalDestination = some port →
    ∃ id ∈ t.bookedAt path.head.id, ∃ d, t.details[id]? = some d ∧ d.IsIngressOnly port ∧
      (∀ (id' : String) (d' : PortDetail), t.details[id']? = some d' → d'.IsIngressOnly port → d' = d) ∧
      (d.host.isSome → ∃ rule,
        rules.filter (fun rule => rule.role == .source && rule.ingress == some port) = [rule] ∧
          List.Forall₂ (FlowClassifier.Completes env)
            (path.classifiers.filter (·.logicalDestination == some port)) rule.addFcs)

namespace ChainEnd

/-- The port of the end is on its side of a rule's two ports. -/
def isAt (e : ChainEnd) (ingress egress : Option String) : Bool :=
  match e with
  | source port => egress == some port
  | destination port => ingress == some port

/-- The classifier names the end. -/
def isNamedBy (e : ChainEnd) (fc : FlowClassifier) : Bool :=
  match e with
  | source port => fc.logicalSource == some port
  | destination port => fc.logicalDestination == some port

variable {e e' : ChainEnd} {fc : FlowClassifier} {d : PortDetail}

theorem isNamedBy_iff : e.isNamedBy fc ↔ e ∈ ofClassifier fc := by
  cases e <;> simp [isNamedBy, ofClassifier]

theorem isAt_of_isOf (h : e.isOf d) : e.isAt d.ingress d.egress := by
  cases e <;> simp_all [isOf, isAt]

/-- Of the details of ends, an end is at its own. -/
theorem isOf_of_isAt (hof : e'.isOf d) (h : e.isAt d.ingress d.egress) : e.isOf d := by
  cases e <;> cases e' <;> simp_all [isOf, isAt]

theorem touches_eq_isNamedBy (h : e.isOf d) :
    Topology.touches d.ingress d.egress fc = e.isNamedBy fc :=
  Bool.eq_iff_iff.2 ((touches_iff h).trans isNamedBy_iff.symm)

end ChainEnd

/-- Only the head of a path is its source. -/
theorem ChainPath.Shaped.eq_head {env : TopologyEnv} {t : Topology} {path : ChainPath}
    {node : PathNode} (h : path.Shaped env t) (hnode : node ∈ path.nodes)
    (hrole : node.role = .source) : node = path.head := by
  rcases ChainPath.mem_nodes.1 hnode with rfl | hhop | rfl
  · rfl
  · cases (h.hop_role node hhop).symm.trans hrole
  · cases h.tail_role.symm.trans hrole

namespace Topology

variable {env : TopologyEnv} {t : Topology} {chainId : String} {path : ChainPath} {node : PathNode}
  {d : PortDetail} {rule : FlowRule} {rules : List FlowRule} {fcs : List FlowClassifier}

/-! ## One rule for each place -/

/-- A traversal that skips elements keeps each of the others in its place. -/
theorem forall₂_filterMap {α β : Type} {f : α → Option β} {p : α → Bool} {as : List α}
    (h : ∀ a ∈ as, (f a).isSome = p a) :
    List.Forall₂ (fun a b => f a = some b) (as.filter p) (as.filterMap f) := by
  induction as with
  | nil => exact .nil
  | cons a as ih =>
    obtain ⟨ha, has⟩ := List.forall_mem_cons.1 h
    cases hf : f a with
    | none =>
      rw [hf] at ha
      rw [List.filter_cons_of_neg (by simp [← ha]), List.filterMap_cons_none hf]
      exact ih has
    | some b =>
      rw [hf] at ha
      rw [List.filter_cons_of_pos (by simp [← ha]), List.filterMap_cons_some hf]
      exact .cons hf (ih has)

theorem installRule?_eq_some : t.installRule? env fcs node d = some rule ↔
    t.detailRule env node d fcs [] none = .ok (some rule) := by
  cases h : t.detailRule env node d fcs [] none <;> simp [installRule?, h, Except.toOption]

/-- Where its traffic can be tagged, a detail has a rule just if it has a host. -/
theorem Usable.isSome_installRule? (h : t.Usable d) :
    (t.installRule? env fcs node d).isSome = d.host.isSome := by
  unfold installRule? detailRule
  cases hhost : d.host with
  | none => rfl
  | some host =>
    obtain ⟨segment, hsegment⟩ := h (by simp [hhost])
    rw [hsegment]
    rfl

theorem hosted_eq (hordered : Ordered t) (hpath : t.path? chainId = some path) :
    t.hosted path = (path.nodes.flatMap fun node => (t.nodeDetails node).map (node, ·)).filter
      (·.2.host.isSome) := by
  unfold hosted
  refine congrArg (List.filter _) (List.flatMap_congr fun node hnode => ?_)
  rw [nodeDetails, show node.portDetails = t.bookedAt node.id from hordered _ _ hpath node hnode]

/-- The rules of a path are those of its details with a host, in their order. -/
theorem forall₂_hosted (hordered : Ordered t) (hpath : t.path? chainId = some path)
    (h : t.pathRules env path = .ok rules) :
    List.Forall₂ (fun place rule =>
      t.detailRule env place.1 place.2 path.classifiers [] none = .ok (some rule))
      (t.hosted path) rules := by
  have hrules : rules = (path.nodes.flatMap fun node => (t.nodeDetails node).map (node, ·)).filterMap
      fun place => t.installRule? env path.classifiers place.1 place.2 := by
    rw [pathRules_eq h, List.filterMap_flatMap]
    refine List.flatMap_congr fun node _ => ?_
    rw [List.filterMap_map]
    rfl
  have hhosted : ∀ place ∈ path.nodes.flatMap fun node => (t.nodeDetails node).map (node, ·),
      (t.installRule? env path.classifiers place.1 place.2).isSome = place.2.host.isSome := by
    intro place hplace
    obtain ⟨node, hnode, hplace⟩ := List.mem_flatMap.1 hplace
    obtain ⟨d, hd, rfl⟩ := List.mem_map.1 hplace
    exact Usable.isSome_installRule? (exists_pathRules_iff.1 ⟨rules, h⟩ node hnode d hd)
  rw [hosted_eq hordered hpath, hrules]
  exact (forall₂_filterMap hhosted).imp fun _ _ hrule => installRule?_eq_some.1 hrule

theorem isFor_of_detailRule (h : t.detailRule env node d fcs [] none = .ok (some rule)) :
    rule.IsFor t node d := by
  obtain ⟨host, segment, hhost, hsegment, rfl⟩ := detailRule_eq_some.1 h
  have hnone : classifiersFor env node.role d [] = [] := by
    cases node.role <;> rfl
  exact
    { id := rfl, role := rfl, nsp := rfl, nsi := rfl, ingress := rfl, egress := rfl
      host := hhost.symm
      segment := hasSegment_iff.2 hsegment
      nextGroup := rfl, reversePath := rfl
      delFcs := hnone
      groupRefs := rfl, sharedWith := rfl }

theorem addFcs_of_detailRule (h : t.detailRule env node d fcs [] none = .ok (some rule)) :
    rule.addFcs = classifiersFor env node.role d fcs := by
  obtain ⟨host, segment, -, -, rfl⟩ := detailRule_eq_some.1 h
  rfl

theorem exists_of_mem_classifiersFor {role : NodeRole} {fc' : FlowClassifier}
    (h : fc' ∈ classifiersFor env role d fcs) : ∃ fc ∈ fcs, fc.Completes env fc' := by
  obtain ⟨fc, hfc, rfl⟩ := List.mem_map.1 h
  refine ⟨fc, ?_, fc.completes_enrich env⟩
  cases role with
  | source => exact (List.mem_filter.1 hfc).1
  | serviceFunction => exact hfc
  | destination => cases hfc

theorem forall₂_map_enrich (fcs : List FlowClassifier) :
    List.Forall₂ (FlowClassifier.Completes env) fcs (fcs.map (enrich env)) := by
  rw [List.forall₂_map_right_iff, List.forall₂_same]
  exact fun fc _ => fc.completes_enrich env

/-! ## Rules of the head -/

/-- Among the details of the head, the id tells the one of an end. -/
theorem isAt_eq_of_mem_head (hwf : WellFormed env t) (hpath : t.path? chainId = some path)
    {e : ChainEnd} (hd : t.details[d.id]? = some d) (hof : e.isOf d) (hhost : d.host.isSome)
    {d' : PortDetail} (hd' : d' ∈ t.nodeDetails path.head) :
    (e.isAt d'.ingress d'.egress && d'.host.isSome) = (d'.id == d.id) := by
  obtain ⟨id', hid', hknown⟩ := mem_nodeDetails.1 hd'
  obtain ⟨_, hfound, e', -, hof'⟩ := (hwf.shaped chainId path hpath).head_detail id' hid'
  obtain rfl := Option.some.inj (hknown.symm.trans hfound)
  obtain rfl := (hwf.genuine id' d' hknown).1
  rw [Bool.eq_iff_iff, Bool.and_eq_true, beq_iff_eq]
  constructor
  · rintro ⟨hat, -⟩
    exact hwf.toBooked.id_unique hknown hd (ChainEnd.isOf_of_isAt hof' hat) hof
  · intro hsame
    rw [hsame] at hknown
    obtain rfl := Option.some.inj (hknown.symm.trans hd)
    exact ⟨ChainEnd.isAt_of_isOf hof, hhost⟩

/-- Of the places of a path, those at the head and of an end are those of the detail of the end. -/
theorem filter_hosted (hwf : WellFormed env t) (hordered : Ordered t)
    (hpath : t.path? chainId = some path) {e : ChainEnd} {id : String}
    (hid : id ∈ path.head.portDetails) (hd : t.details[id]? = some d) (hof : e.isOf d)
    (hhost : d.host.isSome) :
    (t.hosted path).filter (fun place =>
      place.1.role == .source && e.isAt place.2.ingress place.2.egress) = [(path.head, d)] := by
  have hshaped := hwf.shaped chainId path hpath
  obtain rfl := (hwf.genuine id d hd).1
  -- past the head, no node has its role
  have hpast : ∀ node ∈ path.hops ++ [path.tail], (node.role == .source) = false := by
    intro node hnode
    rcases List.mem_append.1 hnode with hhop | htail
    · rw [hshaped.hop_role node hhop]
      rfl
    · rw [List.mem_singleton.1 htail, hshaped.tail_role]
      rfl
  have honly := filter_nodeDetails (hshaped.nodup _ path.head_mem_nodes)
    (fun id d hd => (hwf.genuine id d hd).1) hd
  rw [if_pos (by simpa using hid)] at honly
  rw [hosted_eq hordered hpath, List.filter_filter, List.filter_flatMap]
  change ((path.head :: (path.hops ++ [path.tail])).flatMap _) = _
  rw [List.flatMap_cons, List.flatMap_eq_nil_iff.2, List.append_nil, List.filter_map]
  · rw [← List.map_singleton, ← honly]
    refine congrArg (List.map _) (List.filter_congr fun d' hd' => ?_)
    simp [← isAt_eq_of_mem_head hwf hpath hd hof hhost hd', hshaped.head_role]
  · intro node hnode
    simp [List.filter_map, Function.comp_def, hpast node hnode]

/-- For an end that the classifiers name, the head has a detail, and if this has a host, one rule with the
classifiers that name the end. -/
theorem exists_head_rule (hwf : WellFormed env t) (hordered : Ordered t)
    (hpath : t.path? chainId = some path) (h : t.pathRules env path = .ok rules) {e : ChainEnd}
    (he : e ∈ ChainEnd.ofClassifiers path.classifiers) :
    ∃ id ∈ t.bookedAt path.head.id, ∃ d, t.details[id]? = some d ∧ e.isOf d ∧
      (∀ (id' : String) (d' : PortDetail), t.details[id']? = some d' → e.isOf d' → d' = d) ∧
      (d.host.isSome → ∃ rule,
        rules.filter (fun rule => rule.role == .source && e.isAt rule.ingress rule.egress) = [rule] ∧
          List.Forall₂ (FlowClassifier.Completes env) (path.classifiers.filter e.isNamedBy)
            rule.addFcs) := by
  have hshaped := hwf.shaped chainId path hpath
  obtain ⟨id, hid, d, hd, hof⟩ := hshaped.head_end e he
  refine ⟨id, hordered _ _ hpath _ path.head_mem_nodes ▸ hid, d, hd, hof,
    fun id' d' hd' hof' => hwf.end_unique e id' id d' d hd' hd hof' hof, fun hhost => ?_⟩
  -- what is picked out of the places is picked out of the rules
  have hpicked := List.rel_filter
    (p := fun place : PathNode × PortDetail =>
      place.1.role == .source && e.isAt place.2.ingress place.2.egress)
    (q := fun rule : FlowRule => rule.role == .source && e.isAt rule.ingress rule.egress)
    (fun place rule hrule => by
      have hfor := isFor_of_detailRule hrule
      simp only [hfor.role, hfor.ingress, hfor.egress])
    (forall₂_hosted hordered hpath h)
  rw [filter_hosted hwf hordered hpath hid hd hof hhost, List.forall₂_cons_left_iff] at hpicked
  obtain ⟨rule, rest, hrule, hrest, heq⟩ := hpicked
  obtain rfl := List.forall₂_nil_left_iff.1 hrest
  refine ⟨rule, heq, ?_⟩
  rw [addFcs_of_detailRule hrule, hshaped.head_role, classifiersFor]
  have hnamed : path.classifiers.filter (touches d.ingress d.egress) =
      path.classifiers.filter e.isNamedBy :=
    List.filter_congr fun _ _ => ChainEnd.touches_eq_isNamedBy hof
  rw [← hnamed]
  exact forall₂_map_enrich _

/-! ## Records of classifiers -/

/-- The classifiers of live chains are recorded. -/
theorem Reachable.recorded (hlaw : env.Lawful) (h : Reachable env t)
    (hpath : t.path? chainId = some path) :
    ∀ fc ∈ path.classifiers, ∃ id, env.store.classifier? id = some fc := by
  induction h generalizing path with
  | empty => simp [path?] at hpath
  | @answer t hreach call ih =>
    have hwf := hreach.wellFormed hlaw
    by_cases hown : call.chainId = chainId
    · subst hown
      cases call with
      | create chainId =>
        cases hresult : (t.createChain env chainId).result with
        | ok rules =>
          obtain ⟨-, path', -, hpath', -, -, hrecorded⟩ :=
            exists_plan_of_createChain hlaw hwf hresult
          obtain rfl := Option.some.inj (hpath'.symm.trans hpath)
          exact hrecorded
        | error e => exact ih ((path?_createChain_error hlaw hwf hresult).symm.trans hpath)
      | update chainId added removed =>
        rcases updateClassifiers_cases hlaw hwf chainId added removed with
          ⟨hsame, -⟩ | ⟨old, plan, path', hold, hplanned, hchanged, -⟩
        · exact ih ((congrArg (path? · chainId) hsame).symm.trans hpath)
        · obtain rfl := Option.some.inj (hchanged.path?.symm.trans hpath)
          rw [hchanged.classifiers]
          exact hplanned.stored (ih hold)
      | delete chainId =>
        rcases deleteChain_cases env t chainId with ⟨hsame, -⟩ | ⟨-, rules, -, -, -, hok, -⟩
        · exact ih ((congrArg (path? · chainId) hsame).symm.trans hpath)
        · cases (path?_deleteChain hok).symm.trans hpath
    · exact ih (((hwf.alters_answer hlaw call).path? chainId hown).symm.trans hpath)
  | report _ reports ih =>
    obtain ⟨mentions, hreported⟩ := exists_reported _ reports
    rw [hreported, Option.map_eq_some_iff] at hpath
    obtain ⟨old, hold, rfl⟩ := hpath
    have hrecorded := ih hold
    exact hrecorded

/-! ## The rules of a chain -/

theorem nodup_hosted (hwf : WellFormed env t) (hordered : Ordered t)
    (hpath : t.path? chainId = some path) : (t.hosted path).Nodup := by
  rw [hosted_eq hordered hpath]
  refine List.Nodup.filter _ (List.nodup_flatMap.2 ⟨fun node hnode => ?_, ?_⟩)
  · -- details under two ids have these ids
    refine (List.Nodup.filterMap (fun id id' d hd hd' => ?_)
      ((hwf.shaped chainId path hpath).nodup node hnode)).map fun _ _ => congrArg Prod.snd
    rw [← (hwf.genuine id d hd).1, ← (hwf.genuine id' d hd').1]
  · refine (List.Nodup.of_map _ (hwf.nodes_nodup chainId path hpath)).imp
      fun hne => List.disjoint_left.2 fun place hplace hplace' => ?_
    obtain ⟨d, -, rfl⟩ := List.mem_map.1 hplace
    obtain ⟨d', -, heq⟩ := List.mem_map.1 hplace'
    exact hne (congrArg Prod.fst heq).symm

/-- Where no change of classifiers failed, a live chain has rules, and they carry its classifiers. -/
theorem rules_carry_classifiers (hlaw : env.Lawful)
    (hrun : Evolves env (fun t call => ¬ UpdateFails env t call) {} t)
    (hpath : t.path? chainId = some path) :
    ∃ rules, t.flowRules env chainId = .ok rules ∧ path.Carries env t rules := by
  have hreach := Reachable.empty.evolves hrun
  have hwf := hreach.wellFormed hlaw
  have hordered := hreach.ordered hlaw
  have hshaped := hwf.shaped chainId path hpath
  obtain ⟨rules, hrules⟩ := hrun.ruled hlaw chainId path hpath
  have hbuilt := (flowRules_eq_pathRules hpath).symm.trans hrules
  refine ⟨rules, hrules,
    { listed := fun node hnode id hid => ?_
      hosted_nodup := nodup_hosted hwf hordered hpath
      places := (forall₂_hosted hordered hpath hbuilt).imp fun _ _ => isFor_of_detailRule
      recorded := hreach.recorded hlaw hpath
      completed := fun rule hrule fc' hfc' => ?_
      hops := fun rule hrule hrole => ?_
      heads := fun rule hrule hrole => ?_
      sources := fun fc hfc port hport => ?_
      destinations := fun fc hfc port hport => ?_ }⟩
  · rw [← hordered _ _ hpath node hnode] at hid
    obtain ⟨d, hd⟩ := hwf.toBooked.exists_detail hpath hnode hid
    exact ⟨d, hd, (hwf.genuine id d hd).1⟩
  · obtain ⟨node, d, hhas⟩ := (mem_pathRules hbuilt).1 hrule
    rw [addFcs_of_detailRule hhas.rule_eq] at hfc'
    exact exists_of_mem_classifiersFor hfc'
  · obtain ⟨node, d, hhas⟩ := (mem_pathRules hbuilt).1 hrule
    rw [(isFor_of_detailRule hhas.rule_eq).role] at hrole
    rw [addFcs_of_detailRule hhas.rule_eq, hrole]
    exact forall₂_map_enrich _
  · obtain ⟨node, d, hhas⟩ := (mem_pathRules hbuilt).1 hrule
    have hfor := isFor_of_detailRule hhas.rule_eq
    obtain rfl := hshaped.eq_head hhas.node_mem (hfor.role.symm.trans hrole)
    obtain ⟨id, hid, hd⟩ := mem_nodeDetails.1 hhas.detail_mem
    obtain ⟨d', hd', fc, hfc, port, hnamed⟩ := ((hwf.accounts_path hpath).mem_head_iff id).1 hid
    obtain rfl := Option.some.inj (hd.symm.trans hd')
    refine ⟨fc, hfc, port, ?_⟩
    rw [hfor.ingress, hfor.egress]
    exact hnamed
  · simp only [PortDetail.isEgressOnly_iff]
    exact exists_head_rule hwf hordered hpath hbuilt (e := .source port)
      (ChainEnd.mem_ofClassifiers.2 ⟨fc, hfc, by simp [ChainEnd.ofClassifier, hport]⟩)
  · simp only [PortDetail.isIngressOnly_iff]
    exact exists_head_rule hwf hordered hpath hbuilt (e := .destination port)
      (ChainEnd.mem_ofClassifiers.2 ⟨fc, hfc, by simp [ChainEnd.ofClassifier, hport]⟩)

/-- A chain that lost one of two classifiers: the other one is at the port of its source, at that of its
destination, and at the service function. -/
theorem crossingMiddle_carries : ∃ path rules, crossingMiddle.path? "z" = some path ∧
    crossingMiddle.flowRules crossingEnv "z" = .ok rules ∧
      rules.map (fun rule => (rule.ingress, rule.egress, rule.addFcs.map FlowClassifier.id)) =
        [(none, some "v", ["k"]), (some "s", none, ["k"]), (some "p-in", some "p-out", ["k"])] ∧
      path.Carries crossingEnv crossingMiddle rules := by
  have hlive : (crossingMiddle.path? "z").isSome ∧
      (crossingMiddle.flowRules crossingEnv "z").toOption.map
        (List.map fun rule => (rule.ingress, rule.egress, rule.addFcs.map FlowClassifier.id)) =
          some [(none, some "v", ["k"]), (some "s", none, ["k"]),
            (some "p-in", some "p-out", ["k"])] := by decide +kernel
  obtain ⟨hlive, hcarried⟩ := hlive
  obtain ⟨path, hpath⟩ := Option.isSome_iff_exists.1 hlive
  obtain ⟨rules, hrules, hcarries⟩ :=
    rules_carry_classifiers crossingEnv_lawful crossingMiddle_run hpath
  rw [hrules] at hcarried
  exact ⟨path, rules, hpath, hrules, Option.some.inj hcarried, hcarries⟩

end Topology

end ServiceChain
