import Provisioning.Filer
import Provisioning.ModulePlan

/-!
# Rendering

A round looks up its roots, and plans and renders the modules of all containers among them. The first
failure ends it.
-/

namespace Provisioning

/-- The declarations that are handed to a round. The last round comes with none. -/
structure Round where
  roots : List String
  isLast : Bool
  deriving DecidableEq, Repr

namespace Round

def of (roots : List String) : Round := ⟨roots, false⟩

def last : Round := ⟨[], true⟩

end Round

namespace Env

variable (env : Env)

def root (name : String) : Trial TypeDecl := do
  match ← env.symbols.lookup name with
  | some d => .pure d
  | none => (Trial.fail (.of (.unknownType name))).within .discover

def marked : List String → List TypeDecl → List TypeDecl
  | _, [] => []
  | seen, d :: rest =>
    if d.isAnnotated env.markers.module && !seen.contains d.key then
      d :: marked (d.key :: seen) rest
    else marked seen rest

/-- The containers among the roots. Every root has to be known. -/
def discover (roots : List String) : Trial (List Container) := do
  let decls ← Trial.forAll env.root roots
  let containers := (env.marked [] decls).map (Container.of env.markers)
  .record (.discovered roots.length containers.length)
  return containers

def renderOne (c : Container) : Trial OutputFile := do
  let plan ← (env.plan c).within (.plan c.qualifiedName)
  return .ofSource (plan.sourceFile env.markers)

def render (roots : List String) : Trial (List OutputFile) := do
  let containers ← env.discover roots
  Trial.forAll env.renderOne containers

end Env

end Provisioning
