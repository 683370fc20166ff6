import Provisioning.Config.Directive
import Provisioning.Config.Layers
import Provisioning.Model.Markers

/-!
# Sections

The sections of the configuration: the markers, where the output goes, and what is logged.
-/

namespace Provisioning

open Json

structure OutputSection where
  directory : Option String
  deriving DecidableEq, Repr

namespace OutputSection

def default : OutputSection := ⟨none⟩

def read : Reader OutputSection := fun s t => do
  let fields ← Fields.of? ["directory"] s t
  let directory ← fields.optional "directory" none (Reader.nullable Reader.text)
  return ⟨directory⟩

def toValue (o : OutputSection) : Value := .ofFields [("directory", .ofText? o.directory)]

end OutputSection

/-- What is logged: a level for everything, and directives of the form `target=level`. -/
structure LogSection where
  level : Level
  directives : List String
  deriving DecidableEq, Repr

namespace LogSection

def default : LogSection := ⟨.info, []⟩

def read : Reader LogSection := fun s t => do
  let fields ← Fields.of? ["level", "directives"] s t
  let level ← fields.optional "level" default.level Level.read
  let directives ← fields.optional "directives" default.directives (Reader.list Reader.text)
  return ⟨level, directives⟩

def toValue (c : LogSection) : Value :=
  .ofFields [("level", .text c.level.text), ("directives", .texts c.directives)]

def isAccepted (c : LogSection) : Bool := c.directives.all Directive.isWellFormed

end LogSection

namespace Config

def markers? (c : Config) : Option Markers := c.section? "markers" Markers.default Markers.read

def output? (c : Config) : Option OutputSection :=
  c.section? "output" OutputSection.default OutputSection.read

def log? (c : Config) : Option LogSection := c.section? "tracing" LogSection.default LogSection.read

/-- The configuration with the sections of the generator in full. -/
def effective? (c : Config) : Option Config := do
  let markers ← c.markers?
  let output ← c.output?
  return (c.set "markers" markers.toValue).set "output" output.toValue

end Config

end Provisioning
