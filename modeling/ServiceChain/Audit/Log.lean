/-!
# Log events

What an operator reads while the agent and the topology work.
-/

namespace ServiceChain

/-- How much an event matters. -/
inductive LogLevel where
  | debug
  | info
  | warn
  | error
  deriving DecidableEq, Repr

namespace LogLevel

/-- The name of a level. -/
def text : LogLevel → String
  | debug => "DEBUG"
  | info => "INFO"
  | warn => "WARN"
  | error => "ERROR"

end LogLevel

/-- A message of one component with named values. -/
structure LogEvent where
  level : LogLevel
  source : String
  message : String
  fields : List (String × String)
  deriving DecidableEq, Repr

end ServiceChain
