import Provisioning.Event

/-!
# Trials

A computation that records events and may stop. The events up to the stop are kept.
-/

namespace Provisioning

/-- Why a computation stopped: a failure, or a crash of the symbol model with a message if there is
one. -/
inductive Stop
  | failed (f : Failure)
  | crashed (message : Option String)
  deriving DecidableEq, Repr

structure Trial (α : Type) where
  events : List Event
  result : Except Stop α

namespace Trial

variable {α β : Type}

def pure (a : α) : Trial α := ⟨[], .ok a⟩

def bind (x : Trial α) (f : α → Trial β) : Trial β :=
  match x.result with
  | .ok a => ⟨x.events ++ (f a).events, (f a).result⟩
  | .error stop => ⟨x.events, .error stop⟩

instance : Monad Trial where
  pure := Trial.pure
  bind := Trial.bind

def fail (f : Failure) : Trial α := ⟨[], .error (.failed f)⟩

def crash (message : Option String) : Trial α := ⟨[], .error (.crashed message)⟩

def record (e : Event) : Trial Unit := ⟨[e], .ok ()⟩

def within (x : Trial α) (frame : Frame) : Trial α :=
  match x.result with
  | .error (.failed f) => ⟨x.events, .error (.failed (f.within frame))⟩
  | _ => x

def forAll (f : α → Trial β) : List α → Trial (List β)
  | [] => pure []
  | a :: rest => do
    let b ← f a
    let bs ← forAll f rest
    return b :: bs

end Trial

def Stop.failure : Stop → Failure
  | .failed f => f
  | .crashed message => .of (.internal (message.getD "unknown panic"))

end Provisioning
