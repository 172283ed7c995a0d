/-!
# The host of an agent
-/

namespace ServiceChain

/-- What the compilation of rules needs to know of the host it runs on. -/
structure HostContext where
  /-- The bridge that holds the chain tables. -/
  bridge : String := "br-int"
  /-- The name under which ports are bound to this host. -/
  host : String
  /-- The port towards the other hosts. -/
  transportPort : UInt32
  deriving DecidableEq, Repr

namespace HostContext

/-- The binding is to this host. -/
def isLocal (ctx : HostContext) (host : Option String) : Bool := host == some ctx.host

end HostContext

end ServiceChain
