import Std.Data.ExtTreeMap
import ServiceChain.Topology.Records

/-!
# The records that chains are built from

The topology only asks: for a chain, a group, a pair, a classifier or the binding of a port by its
id.  A catalog is a store that is filled record by record.
-/

namespace ServiceChain

/-- Answers to the questions of the topology. -/
structure Store where
  chain? : String → Option PortChain
  group? : String → Option PortPairGroup
  pair? : String → Option PortPair
  classifier? : String → Option FlowClassifier
  binding? : String → Option PortBinding

/-- Records by their ids. -/
structure Catalog where
  chains : Std.ExtTreeMap String PortChain := ∅
  groups : Std.ExtTreeMap String PortPairGroup := ∅
  pairs : Std.ExtTreeMap String PortPair := ∅
  classifiers : Std.ExtTreeMap String FlowClassifier := ∅
  bindings : Std.ExtTreeMap String PortBinding := ∅

namespace Catalog

/-- Adds a chain, in the place of one with its id. -/
def addChain (c : Catalog) (chain : PortChain) : Catalog :=
  { c with chains := c.chains.insert chain.id chain }

/-- Adds a port pair group, in the place of one with its id. -/
def addGroup (c : Catalog) (group : PortPairGroup) : Catalog :=
  { c with groups := c.groups.insert group.id group }

/-- Adds a port pair, in the place of one with its id. -/
def addPair (c : Catalog) (pair : PortPair) : Catalog :=
  { c with pairs := c.pairs.insert pair.id pair }

/-- Adds a classifier, in the place of one with its id. -/
def addClassifier (c : Catalog) (fc : FlowClassifier) : Catalog :=
  { c with classifiers := c.classifiers.insert fc.id fc }

/-- Adds a binding, in the place of one of its port. -/
def addBinding (c : Catalog) (binding : PortBinding) : Catalog :=
  { c with bindings := c.bindings.insert binding.portId binding }

/-- Drops a chain. -/
def removeChain (c : Catalog) (id : String) : Catalog := { c with chains := c.chains.erase id }

/-- The catalog as a store in which some ports have no binding. -/
def toStore (c : Catalog) (hidden : List String) : Store where
  chain? id := c.chains[id]?
  group? id := c.groups[id]?
  pair? id := c.pairs[id]?
  classifier? id := c.classifiers[id]?
  binding? id := if hidden.contains id then none else c.bindings[id]?

end Catalog

end ServiceChain
