import Provisioning.Command.Registry

/-!
# Command line

The program. A command line is carried out on a file tree that holds what the run concerns; the tree
is filled from the disk until the run meets nothing that was not looked at, and only then are the
changes made.
-/

namespace Provisioning.Program

def textOfPlace (place : List String) : String := "/" ++ Text.join "/" place

def look (place : List String) : IO (Option Entry) := do
  try
    let _ ← IO.FS.realPath (textOfPlace (place ++ ["."]))
    return some .directory
  catch _ =>
    try
      let bytes ← IO.FS.readBinFile (textOfPlace place)
      return some (.file (match String.fromUTF8? bytes with
        | some s => .text s
        | none => .bytes))
    catch _ => return none

def placesTo (place : List String) : List (List String) :=
  (List.range place.length).map fun n => place.take (n + 1)

def stepTo (place : List String) (name : String) : List String :=
  if name = ".." then place.dropLast else place ++ [name]

def placeOf (directory : List String) (path : String) : List String :=
  (Path.components path).foldl stepTo (if Path.isAbsolute path then [] else directory)

def paths (args : List String) : List String :=
  match Registry.default.read args with
  | .ok invocation => (invocation.globals ++ invocation.options).map Prod.snd
  | .error _ => []

def finalTree (start : FileTree) : Outcome → FileTree
  | .usage _ => start
  | .done _ s => s.tree

def addPlaces (tree : FileTree) (places : List (List String)) : IO FileTree :=
  places.foldlM (fun tree place => do
    match ← look place with
    | some e => return tree.put place e
    | none => return tree) tree

/-- Runs the command line on trees that know more and more of the disk, until the run meets no place
that was not looked at. -/
partial def settle (args : List String) (tree : FileTree) (known : List (List String)) :
    IO (FileTree × Outcome) := do
  let outcome := Registry.default.run args tree
  let met := ((finalTree tree outcome).entries.flatMap fun e => placesTo e.1).filter
    fun place => !known.contains place
  if met.isEmpty then return (tree, outcome)
  settle args (← addPlaces tree met.eraseDups) (met ++ known)

def apply (place : List String) : Entry → IO Unit
  | .directory => IO.FS.createDir (textOfPlace place)
  | .file (.text s) => IO.FS.writeFile (textOfPlace place) s
  | .file .bytes => pure ()

def usageText : String :=
  "Usage: [--config FILE] [--config-override FILE]... COMMAND\n\nCommands: " ++
    Text.join ", " Registry.default.names ++ "\n"

def run (args : List String) : IO Bool := do
  let directory := placeOf [] (← IO.currentDir).toString
  let places := (directory :: (paths args).map (placeOf directory)).flatMap placesTo
  let start ← addPlaces ⟨[], directory⟩ places.eraseDups
  let (start, outcome) ← settle args start places
  match outcome with
  | .usage .help =>
    IO.print usageText
    return true
  | .usage .error =>
    IO.eprint usageText
    return false
  | .done success s =>
    for (place, e) in s.tree.entries do
      if start.entry? place ≠ some e then apply place e
    IO.print s.stdout
    for c in s.complaints do IO.eprintln c.line
    return success

end Provisioning.Program

def main (args : List String) : IO UInt32 := do
  if ← Provisioning.Program.run args then return 0 else return 1
