import Provisioning.Command.Arguments
import Provisioning.Command.Session

/-!
# Commands

The commands of the program and the registry that selects one. A command is registered once under its
name.
-/

namespace Provisioning

structure Command where
  name : String
  options : List Command.OptionSpec
  run : Config → Command.Matches → Command.Session → Bool × Command.Session :=
    fun _ _ s => (false, s)

namespace Command

def inputOption : OptionSpec := ⟨"input", 'i', true, true⟩

def outputOption : OptionSpec := ⟨"output", 'd', false, false⟩

/-- The output directory: the one that is passed, or else the one that is configured. -/
def outputDirectory (config : Config) (found : Matches) : Except Complaint String :=
  match found.one? "output" with
  | some directory => .ok directory
  | none =>
    match config.output? with
    | none => .error .invalidOutput
    | some ⟨none⟩ => .error .noOutput
    | some ⟨some directory⟩ => .ok directory

def generate : Command where
  name := "generate"
  options := [inputOption, outputOption]
  run config found s :=
    match config.markers? with
    | none => (false, s.complain .invalidMarkers)
    | some markers =>
      match outputDirectory config found with
      | .error complaint => (false, s.complain complaint)
      | .ok directory => processInputs markers (.directory directory) s (found.all "input")

def check : Command where
  name := "check"
  options := [inputOption]
  run config found s :=
    match config.markers? with
    | none => (false, s.complain .invalidMarkers)
    | some markers => processInputs markers .memory s (found.all "input")

def config : Command where
  name := "config"
  options := []
  run config _ s :=
    match config.effective? with
    | some effective => (true, s.print effective.pretty)
    | none => (false, s.complain .malformedConfig)

def globalOptions : List OptionSpec :=
  [⟨"config", 'c', false, false⟩, ⟨"config-override", 'o', true, false⟩]

end Command

structure Registry where
  commands : Dict Command

inductive Outcome
  | usage (u : Command.Usage)
  | done (success : Bool) (session : Command.Session)

namespace Registry

open Command (Usage Invocation Matches Session Complaint)

def empty : Registry := ⟨[]⟩

def add (r : Registry) (c : Command) : Registry := ⟨Dict.put r.commands c.name c⟩

def default : Registry := ((empty.add .generate).add .check).add .config

def has (r : Registry) (name : String) : Bool := Dict.contains r.commands name

def names (r : Registry) : List String := Dict.keys r.commands

def read (r : Registry) (args : List String) : Except Usage Invocation :=
  Invocation.read Command.globalOptions (r.commands.map fun (name, c) => (name, c.options)) args

def dispatch (r : Registry) (config : Config) (selected : Option (String × Matches)) (s : Session) :
    Bool × Session :=
  match selected with
  | none => (false, s.complain .noCommand)
  | some (name, found) =>
    match Dict.get? r.commands name with
    | some c => c.run config found s
    | none => (false, s.complain (.unknownCommand name))

def logComplaint (config : Config) : Option Complaint :=
  match config.log? with
  | some log => if log.isAccepted then none else some .invalidLog
  | none => some .invalidLog

def run (r : Registry) (args : List String) (tree : FileTree) : Outcome :=
  match r.read args with
  | .error usage => .usage usage
  | .ok invocation =>
    let s := Session.start tree
    let globals := invocation.globals
    match Command.loadConfig tree (globals.one? "config") (globals.all "config-override") with
    | .error complaint => .done false (s.complain complaint)
    | .ok config =>
      match logComplaint config with
      | some complaint => .done false (s.complain complaint)
      | none =>
        let (success, s) := r.dispatch config (some (invocation.command, invocation.options)) s
        .done success s

end Registry

end Provisioning
