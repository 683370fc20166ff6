import Provisioning.Container
import Provisioning.Provision.Strategy

/-!
# Provisions

A value that a method of a container asks for, and the three kinds of provisions with what each of
them needs to be generated.
-/

namespace Provisioning

structure ProvidedValue where
  name : String
  returns : TypeText
  nullable : Bool
  annotations : List AnnotationUse
  /-- The annotations of the only parameter, apart from the strategy markers. -/
  qualifiers : List AnnotationUse
  deriving Repr

namespace ProvidedValue

def providerName (m : ProvidedValue) : String :=
  match m.name.toList with
  | [] => "provide"
  | c :: rest => String.ofList ("provide".toList ++ Text.upperCase c ++ rest)

def isDefaultable (m : ProvidedValue) : Bool := m.nullable || m.returns.isPrimitive

end ProvidedValue

inductive Provision
  | runtime (value : ProvidedValue)
  | injected (value : ProvidedValue) (implementation : TypeText)
  | constructed (value : ProvidedValue) (implementation : TypeText)
      (parameters : List Variable)
  deriving Repr

namespace Provision

def value : Provision → ProvidedValue
  | .runtime m => m
  | .injected m _ => m
  | .constructed m _ _ => m

def strategy : Provision → Strategy
  | .runtime _ => .runtime
  | .injected _ _ => .injection
  | .constructed _ _ _ => .newInstance

end Provision

def Markers.marker (m : Markers) : Strategy → String
  | .runtime => m.runtime
  | .injection => m.injection
  | .newInstance => m.newInstance

def Markers.strategiesOf (m : Markers) (method : Callable) : List Strategy :=
  [Strategy.runtime, .injection, .newInstance].filter fun s => method.isAnnotated (m.marker s)

def Markers.withoutStrategies (m : Markers) (annotations : List AnnotationUse) :
    List AnnotationUse :=
  annotations.filter fun a => !m.isStrategy a.type.text

/-- What is provided by a method. Null is not a value of a primitive type, and only the annotations of
a single parameter are carried over. -/
def ProvidedValue.of (markers : Markers) (m : Callable) : ProvidedValue where
  name := m.name
  returns := m.returns
  nullable := markers.allowsNull m && !m.returns.isPrimitive
  annotations := markers.withoutStrategies m.annotations
  qualifiers := match m.parameters with
    | [p] => markers.withoutStrategies p.annotations
    | _ => []

end Provisioning
