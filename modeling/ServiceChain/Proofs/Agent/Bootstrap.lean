import ServiceChain.Agent.Basic
import ServiceChain.Proofs.Rule.Effect

/-!
# A bridge that was prepared

The bootstrap leaves no groups, and on a bridge without entries just the static ones (`flow_bootstrap`,
`group_bootstrap`).  No rule installs or removes an entry with the key of one of these
(`FlowRule.not_adds_static`, `FlowRule.not_removes_static`).
-/

namespace ServiceChain

namespace Agent

open BridgeOp

variable {agent : Agent} {key : FlowKey} {entry : FlowEntry}

/-- The key of an entry that the bootstrap installs. -/
def IsStaticKey (key : FlowKey) : Prop := ∃ entry, .addFlow entry ∈ bootstrapOps ∧ entry.key = key

theorem addFlow_mem_bootstrapOps : .addFlow entry ∈ bootstrapOps ↔
    entry = ⟨⟨.localSwitching, Priority.fallback, { dlType := some EtherType.mplsUnicast }⟩,
        [.gotoTable .chainIngress]⟩ ∨
      entry = ⟨⟨.chainIngress, Priority.drop, FlowMatch.any⟩, [.drop]⟩ := by
  simp [bootstrapOps]

theorem isStaticKey_iff : IsStaticKey key ↔
    key = ⟨.localSwitching, Priority.fallback, { dlType := some EtherType.mplsUnicast }⟩ ∨
      key = ⟨.chainIngress, Priority.drop, FlowMatch.any⟩ := by
  simp only [IsStaticKey, addFlow_mem_bootstrapOps]
  constructor
  · rintro ⟨entry, rfl | rfl, rfl⟩
    · exact .inl rfl
    · exact .inr rfl
  · rintro (rfl | rfl)
    · exact ⟨_, .inl rfl, rfl⟩
    · exact ⟨_, .inr rfl, rfl⟩

theorem bootstrap_replayed (h : agent.bridge.failing = []) :
    agent.bootstrap.agent.ctx = agent.ctx ∧
      agent.bridge.Replayed bootstrapOps agent.bootstrap.agent.bridge := by
  have hfailure := Bridge.execute_ok h bootstrapOps
  have hreplay := Bridge.execute_replayed hfailure
  unfold bootstrap
  simp only [Execution.result, hfailure]
  exact ⟨trivial, hreplay⟩

theorem group_bootstrap (h : agent.bridge.failing = []) (id : UInt32) :
    agent.bootstrap.agent.bridge.group? id = none := by
  rw [(bootstrap_replayed h).2.group]
  rfl

/-- A bridge without entries gets the static ones and no other. -/
theorem flow_bootstrap (h : agent.bridge.failing = [])
    (hempty : ∀ key, agent.bridge.flow? key = none) :
    (∀ entry, .addFlow entry ∈ bootstrapOps →
        agent.bootstrap.agent.bridge.flow? entry.key = some entry.actions) ∧
      ∀ key, (agent.bootstrap.agent.bridge.flow? key).isSome → IsStaticKey key := by
  have hflow := (bootstrap_replayed h).2.flow
  constructor
  · intro entry hentry
    rw [hflow]
    rcases addFlow_mem_bootstrapOps.1 hentry with rfl | rfl <;> rfl
  · intro key hkey
    rw [hflow, hempty] at hkey
    rcases isSome_or_adds_of_isSome_entryAfter hkey with hsome | ⟨op, hop, entry, rfl, hentry⟩
    · cases hsome
    · exact ⟨entry, hop, hentry⟩

end Agent

namespace FlowRule

open BridgeOp

variable {ctx : HostContext} {ports : PortTable} {r : FlowRule} {ops : List BridgeOp}
  {key : FlowKey}

theorem dlType_ne_ipv4_of_static (h : Agent.IsStaticKey key) :
    key.pattern.dlType ≠ some EtherType.ipv4Value := by
  rcases Agent.isStaticKey_iff.1 h with rfl | rfl <;> decide

theorem not_isStale_of_static (h : Agent.IsStaticKey key) : ¬ r.IsStale ports key := by
  rintro ⟨id, port, -, -, htable, htype, -⟩
  rcases Agent.isStaticKey_iff.1 h with rfl | rfl
  · cases htable
  · cases htype

theorem not_adds_static (hkey : Agent.IsStaticKey key) (h : r.installOps ctx ports = .ok ops) :
    ∀ op ∈ ops, ¬ op.adds key := by
  intro op hop hadds
  exact dlType_ne_ipv4_of_static hkey (dlType_of_adds h hop hadds)

theorem not_removes_static (hkey : Agent.IsStaticKey key) (hr : r.IsWhole)
    (h : r.removeOps ctx ports = .ok ops) : ∀ op ∈ ops, op.removes key = false := by
  have hnever := dlType_ne_ipv4_of_static hkey
  intro op hop
  rw [← Bool.not_eq_true]
  intro hremoves
  rcases (removes_removeOps hr h).1 ⟨op, hop, hremoves⟩ with
    ⟨hnames | ⟨group, -, member, -, rfl⟩, -⟩ | hstale
  · exact hnever hnames.isPassKey.dlType
  · exact hnever rfl
  · exact not_isStale_of_static hkey hstale

end FlowRule

end ServiceChain
