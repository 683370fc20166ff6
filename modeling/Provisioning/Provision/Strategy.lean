/-!
# Strategies

The three ways to obtain a provided value.
-/

namespace Provisioning

inductive Strategy
  /-- The caller passes the value when the module is built. -/
  | runtime
  /-- The framework injects an implementation. -/
  | injection
  /-- The module calls a constructor. -/
  | newInstance
  deriving DecidableEq, Repr

def Strategy.text : Strategy → String
  | .runtime => "Runtime"
  | .injection => "Injection"
  | .newInstance => "NewInstance"

end Provisioning
