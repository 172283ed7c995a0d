import ServiceChain.Bridge.Basic
import ServiceChain.Classifier.Basic

/-!
# Failures of a flow rule
-/

namespace ServiceChain

/-- A port that a rule has to name. -/
inductive PortNeed where
  | ingress
  | ingressOrEgress
  deriving DecidableEq, Repr

namespace PortNeed

/-- The need in words. -/
def text : PortNeed → String
  | ingress => "ingress"
  | ingressOrEgress => "ingress or egress"

end PortNeed

/-- Why a rule has no operations. -/
inductive CompileError where
  | portNotFound (id : String)
  | missingPort (need : PortNeed)
  | classifier (error : ClassifierError)
  deriving DecidableEq, Repr

namespace CompileError

/-- The sentence shown to an operator. -/
def message : CompileError → String
  | portNotFound id => "Port " ++ id ++ " is not attached to the bridge"
  | missingPort need => "Flow rule has no " ++ need.text ++ " port"
  | classifier e => e.message

end CompileError

/-- Why a rule is not in force. -/
inductive RuleError where
  | compile (error : CompileError)
  | bridge (error : BridgeError)
  deriving DecidableEq, Repr

namespace RuleError

/-- The sentence shown to an operator. -/
def message : RuleError → String
  | compile e => e.message
  | bridge e => e.message

end RuleError

end ServiceChain
