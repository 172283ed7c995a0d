import ServiceChain.Rule.HostContext
import ServiceChain.Classifier.Basic
import ServiceChain.Text.Blank

/-!
# Agent configuration

Every setting has a default; the host has to be given, because its default is no host at all.
-/

namespace ServiceChain

/-- The settings of an agent. -/
structure AgentConfig where
  bridge : String := "br-int"
  host : String := ""
  transportPort : UInt32 := 1
  policy : ClassifierPolicy := .atLeastOne
  deriving DecidableEq, Repr

/-- A setting with a value that cannot be used. -/
inductive InvalidSetting where
  | emptyBridge
  | emptyHost
  | zeroTransportPort
  deriving DecidableEq, Repr

/-- Why there is no configuration. -/
inductive ConfigError where
  | unreadable
  | malformed
  | invalid (setting : InvalidSetting)
  deriving DecidableEq, Repr

namespace InvalidSetting

/-- The setting and what is wrong with it. -/
def text : InvalidSetting → String
  | emptyBridge => "bridge must not be empty"
  | emptyHost => "local_host must not be empty"
  | zeroTransportPort => "transport_ofport must be > 0"

/-- The sentence shown to an operator. -/
def message (s : InvalidSetting) : String := "Invalid configuration: " ++ s.text

end InvalidSetting

namespace AgentConfig

/-- A name that holds nothing but blanks. -/
def isBlankName (s : String) : Bool := s.toList.all Text.isBlank

/-- Checks the bridge, the host and the transport port, in this order. -/
def validate (c : AgentConfig) : Except InvalidSetting Unit :=
  if isBlankName c.bridge then .error .emptyBridge
  else if isBlankName c.host then .error .emptyHost
  else if c.transportPort = 0 then .error .zeroTransportPort
  else .ok ()

/-- The settings that compilation looks at. -/
def context (c : AgentConfig) : HostContext := ⟨c.bridge, c.host, c.transportPort⟩

end AgentConfig

end ServiceChain
