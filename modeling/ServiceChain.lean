import ServiceChain.Agent.Basic
import ServiceChain.Agent.ConfigText
import ServiceChain.Topology.Delete
import ServiceChain.Topology.Status
import ServiceChain.Topology.Update
import ServiceChain.Wire.Agent
import ServiceChain.Wire.Flow
import ServiceChain.Wire.Topology
import ServiceChain.Proofs.Bridge.Replay
import ServiceChain.Proofs.Bridge.Auditing
import ServiceChain.Proofs.Bridge.History
import ServiceChain.Proofs.Bridge.Stopping
import ServiceChain.Proofs.Classifier.Reversal
import ServiceChain.Proofs.Classifier.Validation
import ServiceChain.Proofs.Classifier.Words
import ServiceChain.Proofs.Rule.HeadTraffic
import ServiceChain.Proofs.Rule.Inverse
import ServiceChain.Proofs.Rule.Sparing
import ServiceChain.Proofs.Rule.Steps
import ServiceChain.Proofs.Rule.Labels
import ServiceChain.Proofs.Rule.Overlooking
import ServiceChain.Proofs.Rule.Directions
import ServiceChain.Proofs.Rule.Turned
import ServiceChain.Proofs.Address.Grammar
import ServiceChain.Proofs.Address.Networks
import ServiceChain.Proofs.Flow.Texts
import ServiceChain.Proofs.Wire.Flows
import ServiceChain.Proofs.Wire.Nesting
import ServiceChain.Proofs.Agent.Accounting
import ServiceChain.Proofs.Agent.Batch
import ServiceChain.Proofs.Agent.Restart
import ServiceChain.Proofs.Agent.Repeating
import ServiceChain.Proofs.Deployment.Flows
import ServiceChain.Proofs.Deployment.Groups
import ServiceChain.Proofs.Deployment.Isolation
import ServiceChain.Proofs.Deployment.Programs
import ServiceChain.Proofs.Deployment.References
import ServiceChain.Proofs.Deployment.Reinstall
import ServiceChain.Proofs.Topology.FailedUpdates
import ServiceChain.Proofs.Topology.Bookkeeping
import ServiceChain.Proofs.Topology.Lasting
import ServiceChain.Proofs.Topology.Mirroring
import ServiceChain.Proofs.Topology.Recording
import ServiceChain.Proofs.Topology.Statuses
import ServiceChain.Proofs.Topology.Collisions
import ServiceChain.Proofs.Topology.Counts
import ServiceChain.Proofs.Topology.Accepting
import ServiceChain.Proofs.Topology.Numbering
import ServiceChain.Proofs.Topology.Order
import ServiceChain.Proofs.Topology.Carrying
