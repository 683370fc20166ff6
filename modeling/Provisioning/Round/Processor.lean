import Provisioning.Round.Writing

/-!
# The processor

The generator from one round to the next. A failed round is reported once and does not end the
processing.
-/

namespace Provisioning

inductive Phase
  | idle
  | processing
  deriving DecidableEq, Repr

def Phase.text : Phase → String
  | .idle => "idle"
  | .processing => "processing"

/-- The generator between two rounds: its filer, what has happened so far, and its phase. -/
structure Processor (σ : Type) where
  env : Env
  filer : σ
  events : List Event
  phase : Phase

namespace Processor

variable {σ : Type} [Filer σ]

def start (env : Env) (filer : σ) : Processor σ := ⟨env, filer, [], .idle⟩

def log (p : Processor σ) : Log := diagnostics p.events

def supported (p : Processor σ) : List String := [p.env.markers.module]

def outcome (t : Trial (List OutputFile)) : Event :=
  match t.result with
  | .ok files => .completed files.length
  | .error stop => .failed stop.failure

def generate (p : Processor σ) (roots : List String) :
    Processor σ × Except Stop (List OutputFile) :=
  let (filer, t) := p.env.generate p.filer roots
  ({ p with filer, events := p.events ++ t.events }, t.result)

/-- Runs a round. The annotations are claimed in any case: a failure is reported, not returned. -/
def process (p : Processor σ) (round : Round) : Bool × Processor σ :=
  let (filer, t) := p.env.generate p.filer round.roots
  (true, { p with filer, events := p.events ++ t.events ++ [outcome t], phase := .idle })

def write (p : Processor σ) (f : OutputFile) : Processor σ × Except WriteError Unit :=
  let (filer, result) := Filer.write p.filer f
  ({ p with filer }, result)

end Processor

end Provisioning
