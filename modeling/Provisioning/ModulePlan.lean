import Provisioning.Source.Layout
import Provisioning.Provision.Classification

/-!
# Module plans

The provisions of a container, and the module that is generated from them: a class with one provider
for each provision, and a builder that takes the values of the runtime provisions.
-/

namespace Provisioning

open Source

structure ModulePlan where
  container : Container
  moduleClass : ClassName
  provisions : List Provision
  deriving Repr

/-- Plans the module of a container. The first method that is rejected stops the planning. -/
def Env.plan (env : Env) (c : Container) : Trial ModulePlan := do
  let methods ← env.symbols.methods c.decl
  let found ← Trial.forAll (fun m => (env.classify c m).within (.classify (c.element m))) methods
  let provisions := found.filterMap id
  .record (.planned c.qualifiedName c.moduleClass.canonical provisions.length)
  return ⟨c, c.moduleClass, provisions⟩

namespace ModulePlan

def builderName : String := "Builder"

def builderClass (p : ModulePlan) : ClassName := p.moduleClass.nested builderName

def constructed (p : ModulePlan) : List (ProvidedValue × TypeText × List Variable) :=
  p.provisions.filterMap fun provision => match provision with
    | .constructed m implementation parameters => some (m, implementation, parameters)
    | _ => none

def injected (p : ModulePlan) : List (ProvidedValue × TypeText) :=
  p.provisions.filterMap fun provision => match provision with
    | .injected m implementation => some (m, implementation)
    | _ => none

def runtime (p : ModulePlan) : List ProvidedValue :=
  p.provisions.filterMap fun provision => match provision with
    | .runtime m => some m
    | _ => none

def hasCreate (p : ModulePlan) : Bool := p.runtime.all ProvidedValue.isDefaultable

end ModulePlan

def ProvidedValue.type (m : ProvidedValue) : TypeName := .parse m.returns.text

namespace ModulePlan

def publicOnly : Modifiers := .ofList [.public]

def provider (markers : Markers) (m : ProvidedValue) : Method :=
  { Method.named m.providerName with
    modifiers := publicOnly
    marks := Mark.of (.guess markers.provides) :: m.annotations.map Mark.ofUse
    returns := some m.type }

def constructedProvider (markers : Markers) (m : ProvidedValue) (implementation : TypeText)
    (parameters : List Variable) : Method :=
  { provider markers m with
    parameters := parameters.map fun v =>
      ⟨.parse v.type.text, v.name, v.annotations.map Mark.ofUse⟩
    statements := [[.text "return new ", .type (.parse implementation.text),
      .text ("(" ++ Text.join ", " (parameters.map Variable.name) ++ ")")]] }

def injectedProvider (markers : Markers) (m : ProvidedValue) (implementation : TypeText) :
    Method :=
  { provider markers m with
    parameters := [⟨.parse implementation.text, m.name, m.qualifiers.map Mark.ofUse⟩]
    statements := [Code.text ("return " ++ m.name)] }

def runtimeProvider (markers : Markers) (m : ProvidedValue) : Method :=
  { provider markers m with statements := [Code.text ("return this." ++ m.name)] }

def assignment (m : ProvidedValue) : Code := Code.text ("this." ++ m.name ++ " = " ++ m.name)

def moduleConstructor (p : ModulePlan) : Method :=
  { Method.constructor with
    modifiers := publicOnly
    parameters := p.runtime.map fun m => ⟨m.type, m.name, []⟩
    statements := p.runtime.map assignment }

def setter (p : ModulePlan) (m : ProvidedValue) : Method :=
  { Method.named m.name with
    modifiers := publicOnly
    parameters := [⟨m.type, m.name, []⟩]
    statements := [assignment m, Code.text "return this"]
    returns := some (.class p.builderClass) }

def nullGuard (m : ProvidedValue) : Code :=
  [.text ("if (" ++ m.name ++ " == null) throw new "),
    .type (.class (.topLevelOf implicitPackage "NullPointerException")), .text "(",
    .text (stringLiteral (m.name ++ " == null")), .text ")"]

def buildMethod (p : ModulePlan) : Method :=
  { Method.named "build" with
    modifiers := publicOnly
    returns := some (.class p.moduleClass)
    statements := (p.runtime.filter fun m => !m.isDefaultable).map nullGuard ++
      [[.text "return new ", .type (.class p.moduleClass),
        .text ("(" ++ Text.join ", " (p.runtime.map ProvidedValue.name) ++ ")")]] }

def builder (p : ModulePlan) : Source.Class where
  name := builderName
  marks := []
  modifiers := .ofList [.public, .static, .final]
  fields := p.runtime.map fun m => ⟨m.type, m.name, .ofList [.private], []⟩
  methods := p.runtime.map p.setter ++ [p.buildMethod]
  classes := []

def builderMethod (p : ModulePlan) : Method :=
  { Method.named "builder" with
    modifiers := .ofList [.static]
    statements := [[.text "return new ", .type (.class p.builderClass), .text "()"]]
    returns := some (.class p.builderClass) }

def createMethod (p : ModulePlan) : Method :=
  { Method.named "create" with
    javadoc := some "Create the module with default values (null, 0)"
    modifiers := .ofList [.static]
    statements := [Code.text "return builder().build()"]
    returns := some (.class p.moduleClass) }

/-- The providers, one for each provision: those that construct, those that are injected and those of
runtime values. -/
def providers (p : ModulePlan) (markers : Markers) : List Method :=
  (p.constructed.map fun (m, implementation, parameters) =>
      constructedProvider markers m implementation parameters) ++
    (p.injected.map fun (m, implementation) => injectedProvider markers m implementation) ++
    p.runtime.map (runtimeProvider markers)

def moduleDecl (p : ModulePlan) (markers : Markers) : Source.Class where
  name := p.moduleClass.simpleName
  marks := [Mark.of (.guess markers.daggerModule)]
  modifiers := publicOnly
  fields := p.runtime.map fun m => ⟨m.type, m.name, .ofList [.private, .final], []⟩
  methods := p.providers markers ++ [p.moduleConstructor, p.builderMethod] ++
    (if p.hasCreate then [p.createMethod] else [])
  classes := [p.builder]

def sourceFile (p : ModulePlan) (markers : Markers) : Source.File :=
  ⟨p.moduleClass.package, p.moduleDecl markers, none⟩

end ModulePlan

end Provisioning
