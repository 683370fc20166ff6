import Provisioning.Json.Reader
import Provisioning.Model.Writing
import Provisioning.Text.Case
import Provisioning.Text.Pieces

/-!
# Markers

The names of the annotations that the generator recognises or writes.
-/

namespace Provisioning

structure Markers where
  module : String
  moduleNameProperty : String
  runtime : String
  injection : String
  newInstance : String
  /-- The type property of the strategy markers that names the implementation. -/
  implementationProperty : String
  /-- The implementation that stands for the return type. -/
  unsetSentinel : String
  component : String
  daggerModule : String
  provides : String
  nullable : List String
  deriving DecidableEq, Repr

namespace Markers

def default : Markers where
  module := "stiletto.Stiletto.Module"
  moduleNameProperty := "moduleName"
  runtime := "stiletto.ProvidedBy.Runtime"
  injection := "stiletto.ProvidedBy.Injection"
  newInstance := "stiletto.ProvidedBy.NewInstance"
  implementationProperty := "value"
  unsetSentinel := "java.lang.Void"
  component := "dagger.Component"
  daggerModule := "dagger.Module"
  provides := "dagger.Provides"
  nullable := ["Nullable"]

/-- The markers of which a provided method carries exactly one. -/
def strategies (m : Markers) : List String := [m.runtime, m.injection, m.newInstance]

def isStrategy (m : Markers) (name : String) : Bool := m.strategies.contains name

/-- Whether the name is one of the simple names for nullability, possibly behind a qualifier that
ends in a point. -/
def isNullable (m : Markers) (name : String) : Bool :=
  m.nullable.any fun simple =>
    name = simple ||
      match Text.dropSuffix? simple name with
      | some qualifier => qualifier.toList.getLast? = some '.'
      | none => false

def fromUppercase : List (List Char) → List (List Char) :=
  List.dropWhile fun segment => match segment with
    | c :: _ => !Text.isUppercase c
    | [] => true

/-- A marker as it is written in source: the part of the name from the first segment that starts in
upper case, or all of it. -/
def displayName (name : String) : String :=
  match fromUppercase (Text.pieces '.' name.toList) with
  | [] => name
  | segments => Text.join "." (segments.map String.ofList)

open Json

def fieldNames : List String :=
  ["module", "module_name_property", "runtime", "injection", "new_instance",
    "implementation_property", "unset_sentinel", "component", "dagger_module", "provides",
    "nullable"]

def read : Reader Markers := fun s t => do
  let fields ← Fields.of? fieldNames s t
  let name (field : String) (unset : String) := fields.optional field unset Reader.text
  return {
    module := ← name "module" default.module
    moduleNameProperty := ← name "module_name_property" default.moduleNameProperty
    runtime := ← name "runtime" default.runtime
    injection := ← name "injection" default.injection
    newInstance := ← name "new_instance" default.newInstance
    implementationProperty := ← name "implementation_property" default.implementationProperty
    unsetSentinel := ← name "unset_sentinel" default.unsetSentinel
    component := ← name "component" default.component
    daggerModule := ← name "dagger_module" default.daggerModule
    provides := ← name "provides" default.provides
    nullable := ← fields.optional "nullable" default.nullable (Reader.list Reader.text) }

def toValue (m : Markers) : Value :=
  .ofFields
    [("module", .text m.module), ("module_name_property", .text m.moduleNameProperty),
      ("runtime", .text m.runtime), ("injection", .text m.injection),
      ("new_instance", .text m.newInstance),
      ("implementation_property", .text m.implementationProperty),
      ("unset_sentinel", .text m.unsetSentinel), ("component", .text m.component),
      ("dagger_module", .text m.daggerModule), ("provides", .text m.provides),
      ("nullable", .texts m.nullable)]

end Markers

end Provisioning
