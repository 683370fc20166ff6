import Provisioning.Diagnostic
import Provisioning.Failure
import Provisioning.Provision.Strategy

/-!
# Events

What happens while rounds are processed, in order. The diagnostics for the host are those of the
events that report something.
-/

namespace Provisioning

inductive Event
  | started (round roots : Nat)
  | discovered (roots containers : Nat)
  | classified (element : String) (strategy : Strategy) (nullable : Bool)
  | planned (container module : String) (provisions : Nat)
  | generated (module : String)
  | completed (files : Nat)
  | warned (message : String) (element : Option String)
  | failed (f : Failure)
  deriving DecidableEq, Repr

inductive Level
  | error
  | warn
  | info
  | debug
  | trace
  deriving DecidableEq, Repr

def Level.text : Level → String
  | .error => "ERROR"
  | .warn => "WARN"
  | .info => "INFO"
  | .debug => "DEBUG"
  | .trace => "TRACE"

/-- A failure as a diagnostic: a validation failure against its element, any other with its trace. -/
def Failure.diagnostic (f : Failure) : Diagnostic :=
  if f.isValidation then .error f.message f.element else .error f.report none

namespace Event

def level : Event → Level
  | .generated _ => .info
  | .warned _ _ => .warn
  | .failed _ => .error
  | _ => .debug

def message : Event → String
  | .started _ _ => "Starting round"
  | .discovered _ _ => "Discovered containers"
  | .classified _ _ _ => "Classified provision"
  | .planned _ _ _ => "Planned module"
  | .generated _ => "Generated module"
  | .completed _ => "Round completed"
  | .warned message _ => message
  | .failed f => f.diagnostic.message

def fields : Event → List (String × String)
  | .started round roots => [("round", round.repr), ("roots", roots.repr)]
  | .discovered roots containers => [("roots", roots.repr), ("containers", containers.repr)]
  | .classified element strategy nullable =>
    [("method", element), ("strategy", strategy.text),
      ("nullable", if nullable then "true" else "false")]
  | .planned container module provisions =>
    [("container", container), ("module", module), ("provisions", provisions.repr)]
  | .generated module => [("module", module)]
  | .completed files => [("files", files.repr)]
  | .warned _ element => [("element", element.getD "")]
  | .failed f => if f.isValidation then [("element", f.element.getD "")] else []

def diagnostic? : Event → Option Diagnostic
  | .warned message element => some (.warning message element)
  | .failed f => some f.diagnostic
  | _ => none

end Event

def diagnostics (events : List Event) : Log := events.filterMap Event.diagnostic?

end Provisioning
