import Provisioning.Config.Sections
import Provisioning.Report

/-!
# Sessions

The surroundings of a command: the files it sees, what it has printed, and its complaints.
-/

namespace Provisioning.Command

inductive Complaint
  | unreadableConfig (path : String) (e : SystemError)
  | malformedConfig
  | invalidLog
  | invalidMarkers
  | invalidOutput
  | noOutput
  | noCommand
  | unknownCommand (name : String)
  | unreadableInput (path : String) (e : SystemError)
  | malformedInput (path : String)
  deriving DecidableEq, Repr

namespace Complaint

def headline : Complaint → Option String
  | .unreadableConfig path e => some ("Cannot read config " ++ path ++ ": " ++ e.message)
  | .malformedConfig => none
  | .invalidLog => some "Cannot setup tracing"
  | .invalidMarkers => some "Invalid markers config"
  | .invalidOutput => some "Invalid output config"
  | .noOutput => some "No output directory, pass --output or set output.directory"
  | .noCommand => some "No command given"
  | .unknownCommand name => some ("Unknown command " ++ name)
  | .unreadableInput path e => some ("Cannot read input " ++ path ++ ": " ++ e.message)
  | .malformedInput path => some ("Invalid input " ++ path)

def explanation : Complaint → Option String
  | .malformedConfig => some "malformed configuration"
  | .invalidLog => some "malformed section"
  | .invalidMarkers => some "malformed section"
  | .invalidOutput => some "malformed section"
  | .malformedInput _ => some "malformed document"
  | _ => none

def line (c : Complaint) : String :=
  Text.join ": " (c.headline.toList ++ c.explanation.toList)

end Complaint

structure Session where
  tree : FileTree
  stdout : String
  complaints : List Complaint
  deriving Repr

namespace Session

def start (tree : FileTree) : Session := ⟨tree, "", []⟩

def print (s : Session) (line : String) : Session := { s with stdout := s.stdout ++ line ++ "\n" }

def printAll (s : Session) (lines : List String) : Session := lines.foldl print s

def complain (s : Session) (c : Complaint) : Session :=
  { s with complaints := s.complaints ++ [c] }

end Session

def readConfig (tree : FileTree) (path : String) : Except Complaint Config :=
  match tree.readFile path with
  | .error e => .error (.unreadableConfig path e)
  | .ok text =>
    match Config.read.run text with
    | some config => .ok config
    | none => .error .malformedConfig

/-- The base configuration, if there is one, with the overrides laid over it in order. -/
def loadConfig (tree : FileTree) (base : Option String) (overrides : List String) :
    Except Complaint Config := do
  let start ← match base with
    | some path => readConfig tree path
    | none => .ok Config.empty
  overrides.foldlM (fun config path => do return config.merge (← readConfig tree path)) start

def readInput (tree : FileTree) (path : String) : Except Complaint Universe :=
  match tree.readFile path with
  | .error e => .error (.unreadableInput path e)
  | .ok text =>
    match Universe.read.run text with
    | some u => .ok u
    | none => .error (.malformedInput path)

def fileLine (output : Output) (f : OutputFile) : String :=
  match output with
  | .directory root => "wrote " ++ Path.join root f.path
  | .memory => "would write " ++ f.path

def processInput (markers : Markers) (output : Output) (s : Session) (path : String) :
    Bool × Session :=
  match readInput s.tree path with
  | .error complaint => (false, s.complain complaint)
  | .ok u =>
    let (report, tree) := u.runIn markers output s.tree
    let s := { s with tree }
    let s := s.printAll (report.diagnostics.map Diagnostic.display)
    (!report.hasErrors, s.printAll (report.files.map (fileLine output)))

def processInputs (markers : Markers) (output : Output) : Session → List String → Bool × Session
  | s, [] => (true, s)
  | s, path :: rest =>
    let (first, s) := processInput markers output s path
    let (others, s) := processInputs markers output s rest
    (first && others, s)

end Provisioning.Command
