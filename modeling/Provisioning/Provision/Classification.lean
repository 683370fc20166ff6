import Provisioning.Provision.Basic

/-!
# Classification

A method of a container with a strategy marker is classified into a provision, or rejected. All rules
are checked here, in a fixed order, so that a provision can be generated as it is.
-/

namespace Provisioning

namespace Env

variable (env : Env)

def warnNullable (m : Callable) (element : String) : Trial Unit :=
  if env.markers.allowsNull m && m.returns.isPrimitive then
    .record (.warned ("Nullable annotation on " ++ element ++ " has no effect, primitive " ++
      m.returns.text ++ " can't be null") (some element))
  else .pure ()

def injected (m : Callable) (element : String) : Trial TypeText :=
  let markers := env.markers
  match m.typeProperty markers.injection markers.implementationProperty with
  | .error p => .fail (.of (.property p (some element)))
  | .ok implementation =>
    if env.symbols.classpath.isSubtype implementation m.returns then .pure implementation
    else .fail (.violation (.injectedNotSubtype implementation m.returns) element)

/-- The implementation to construct: the property of the marker, or the return type when the property
has no value or the value that means so. -/
def implementation (m : Callable) : Except PropertyProblem TypeText :=
  let markers := env.markers
  match m.typeProperty markers.newInstance markers.implementationProperty with
  | .ok t => .ok (if t.same ⟨markers.unsetSentinel⟩ then m.returns else t)
  | .error p => if p.fault = .unset then .ok m.returns else .error p

def constructed (m : Callable) (element : String) : Trial (TypeText × List Variable) :=
  let reject {α : Type} (v : Violation) : Trial α := .fail (.violation v element)
  match env.implementation m with
  | .error p => .fail (.of (.property p (some element)))
  | .ok implementation => do
    let marker := Markers.displayName env.markers.newInstance
    if !env.symbols.classpath.isSubtype implementation m.returns then
      reject (.notSubtype implementation m.returns)
    else
      let decl ← env.symbols.require implementation
      if decl.isAbstract || decl.isInterface then reject (.notInstantiable implementation)
      else match decl.openConstructors with
        | [constructor] => .pure (implementation, constructor.parameters)
        | [] => reject (.noConstructor implementation marker)
        | _ => reject (.severalConstructors implementation marker)

def provision (strategy : Strategy) (provided : ProvidedValue) (m : Callable) (element : String) :
    Trial Provision :=
  match strategy with
  | .runtime => .pure (.runtime provided)
  | .injection => do
    let implementation ← env.injected m element
    return .injected provided implementation
  | .newInstance => do
    let (implementation, parameters) ← env.constructed m element
    return .constructed provided implementation parameters

def classify (c : Container) (m : Callable) : Trial (Option Provision) :=
  let element := c.element m
  let markers := env.markers
  match markers.strategiesOf m with
  | [] => .pure none
  | [strategy] =>
    if m.returns.isVoid then
      .fail (.violation (.returnsNothing (Markers.displayName (markers.marker strategy))) element)
    else if c.inComponent && !m.parameters.isEmpty then
      .fail (.violation .parametersInComponent element)
    else do
      env.warnNullable m element
      let provided := ProvidedValue.of markers m
      .record (.classified element strategy provided.nullable)
      let provision ← env.provision strategy provided m element
      return some provision
  | several =>
    .fail (.violation
      (.severalMarkers (several.map fun s => Markers.displayName (markers.marker s))) element)

end Env

end Provisioning
