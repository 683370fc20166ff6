import Provisioning.Source.ClassName
import Provisioning.Symbols

/-!
# Containers

A declaration whose methods provide values, and the name of the module that is generated for it.
-/

namespace Provisioning

open Source (ClassName)

/-- Replaces the last `Component` in the name, and what follows it, by `Module`. A name without one,
or with one at the start only, gets `Module` at its end. -/
def moduleSimpleName (container : String) : String :=
  match Text.beforeLast "Component".toList container.toList with
  | some (c :: before) => String.ofList (c :: before) ++ "Module"
  | _ => container ++ "Module"

structure Container where
  decl : TypeDecl
  className : ClassName
  inComponent : Bool
  moduleName : Option String
  deriving Repr

namespace Container

/-- The name that a module marker gives, unless it is blank. -/
def givenName (markers : Markers) (a : AnnotationUse) : Option String :=
  match Dict.get? a.values markers.moduleNameProperty with
  | some (.string name) =>
    let name := Text.trim name
    if name.isEmpty then none else some name
  | _ => none

def of (markers : Markers) (d : TypeDecl) : Container where
  decl := d
  className := .guess d.key
  inComponent := d.isAnnotated markers.component
  moduleName := (d.findAnnotated? markers.module).bind (givenName markers)

def qualifiedName (c : Container) : String := c.className.canonical

def element (c : Container) (m : Callable) : String :=
  c.qualifiedName ++ "." ++ m.name ++ "(" ++
    Text.join ", " (m.parameters.map fun p => p.type.text) ++ ")"

def moduleClass (c : Container) : ClassName :=
  .topLevelOf c.className.package (c.moduleName.getD (moduleSimpleName c.className.simpleName))

end Container

end Provisioning
