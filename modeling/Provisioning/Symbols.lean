import Provisioning.Classpath
import Provisioning.Model.Markers
import Provisioning.Trial

/-!
# Symbols

The host's view of the declarations. Looking up a type may crash; everything else is answered from
the classpath.
-/

namespace Provisioning

/-- A classpath, and the names whose look-up crashes. -/
structure Symbols where
  classpath : Classpath
  crash : String → Option (Option String)

namespace Symbols

def ofClasspath (cp : Classpath) : Symbols := ⟨cp, fun _ => none⟩

def lookup (s : Symbols) (name : String) : Trial (Option TypeDecl) :=
  match s.crash name with
  | some message => .crash message
  | none => .pure (s.classpath.find? name)

def require (s : Symbols) (t : TypeText) : Trial TypeDecl := do
  match ← s.lookup t.erasure with
  | some d => .pure d
  | none => .fail (.of (.unknownType t.text))

def methods (s : Symbols) (d : TypeDecl) : Trial (List Callable) :=
  match (s.classpath.lookups d).findSome? s.crash with
  | some message => .crash message
  | none => .pure (s.classpath.methods d)

end Symbols

def AnnotationUse.typeProperty (a : AnnotationUse) (property : String) :
    Except PropertyProblem TypeText :=
  match Dict.get? a.values property with
  | some (.type t) => .ok t
  | some _ => .error ⟨a.type.text, property, .notType⟩
  | none => .error ⟨a.type.text, property, .unset⟩

def Callable.typeProperty (m : Callable) (marker property : String) :
    Except PropertyProblem TypeText :=
  match m.findAnnotated? marker with
  | some a => a.typeProperty property
  | none => .error ⟨marker, property, .absent⟩

def Markers.allowsNull (markers : Markers) (m : Callable) : Bool :=
  m.annotations.any fun a => markers.isNullable a.type.text

structure Env where
  symbols : Symbols
  markers : Markers

end Provisioning
