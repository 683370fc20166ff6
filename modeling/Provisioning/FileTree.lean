import Provisioning.Failure
import Provisioning.Path

/-!
# File trees

Directories and files by their absolute paths, and a working directory at which relative paths
begin. The operations answer the errors of an operating system.
-/

namespace Provisioning

inductive Contents
  | text (s : String)
  | bytes
  deriving DecidableEq, Repr

inductive Entry
  | directory
  | file (contents : Contents)
  deriving DecidableEq, Repr

/-- The entries below the root, each under the names on the way to it. -/
structure FileTree where
  entries : List (List String × Entry)
  workingDirectory : List String
  deriving Repr

namespace FileTree

/-- A tree with an empty working directory `work`. The directory that holds it has the empty name,
so no path from the root leads there. -/
def fresh : FileTree :=
  ⟨[(["tmp"], .directory), (["tmp", ""], .directory), (["tmp", "", "work"], .directory)],
    ["tmp", "", "work"]⟩

def entry? (t : FileTree) (place : List String) : Option Entry :=
  if place.isEmpty then some .directory else (t.entries.find? (·.1 = place)).map Prod.snd

def put (t : FileTree) (place : List String) (e : Entry) : FileTree :=
  { t with entries := t.entries.filter (·.1 ≠ place) ++ [(place, e)] }

def maxNameLength : Nat := 255

def maxPathLength : Nat := 4095

def checkPath (path : String) : Except SystemError Unit :=
  if path.toList.contains '\x00' then .error .nulInName
  else if maxPathLength < path.utf8ByteSize then .error .nameTooLong
  else if path.isEmpty then .error .noEntry
  else .ok ()

/-- Where the names lead from a directory, step by step. Every step but the last has to lead to a
directory. -/
def follow (t : FileTree) : List String → List String → Except SystemError (List String)
  | place, [] => .ok place
  | place, name :: rest =>
    match t.entry? place with
    | none => .error .noEntry
    | some (.file _) => .error .notDirectory
    | some .directory =>
      if name = "." then follow t place rest
      else if name = ".." then follow t place.dropLast rest
      else if maxNameLength < name.utf8ByteSize then .error .nameTooLong
      else follow t (place ++ [name]) rest

def origin (t : FileTree) (path : String) : List String :=
  if Path.isAbsolute path then [] else t.workingDirectory

def locate (t : FileTree) (path : String) : Except SystemError (List String) := do
  checkPath path
  follow t (t.origin path) (Path.steps path)

/-- Makes the directories that are missing along the names, which begin in a directory. No path
leads through a file. The file itself is found in the way when the path up to it is tried alone: at
the last name, and at every name behind a directory that had to be made. -/
def makeAlong (t : FileTree) (made : Bool) :
    List String → List String → FileTree × Except SystemError Unit
  | _, [] => (t, .ok ())
  | place, name :: rest =>
    if name = "." then makeAlong t made place rest
    else if name = ".." then makeAlong t made place.dropLast rest
    else if maxNameLength < name.utf8ByteSize then (t, .error .nameTooLong)
    else
      match t.entry? (place ++ [name]) with
      | some .directory => makeAlong t made (place ++ [name]) rest
      | some (.file _) => (t, .error (if made || rest.isEmpty then .exists else .notDirectory))
      | none => makeAlong (t.put (place ++ [name]) .directory) true (place ++ [name]) rest

def makeParents (t : FileTree) (path : String) : FileTree × Except SystemError Unit :=
  let parent := Path.parent path
  if parent.isEmpty then (t, .ok ())
  else match checkPath parent with
    | .error e => (t, .error e)
    | .ok () => t.makeAlong false (t.origin path) (Path.steps parent)

def locateAbove (t : FileTree) (path : String) : Except SystemError (List String) := do
  checkPath path
  follow t (t.origin path) ((Path.steps path).dropLast ++ ["."])

/-- Writes a text to a file, which is made if it is not there. A path that ends in a slash is
refused without a look at its last name. -/
def writeFile (t : FileTree) (path text : String) : Except SystemError FileTree :=
  if Path.endsInSlash path then do
    let _ ← t.locateAbove path
    .error .isDirectory
  else do
    let place ← t.locate path
    match t.entry? place with
    | some .directory => .error .isDirectory
    | _ => .ok (t.put place (.file (.text text)))

def readFile (t : FileTree) (path : String) : Except SystemError String := do
  let place ← t.locate path
  match t.entry? place with
  | none => .error .noEntry
  | some .directory => .error .isDirectory
  | some (.file contents) =>
    if Path.endsInSlash path then .error .notDirectory
    else match contents with
      | .text s => .ok s
      | .bytes => .error .notText

def listing (t : FileTree) : List (String × Option Contents) :=
  t.entries.filterMap fun (place, e) =>
    if t.workingDirectory.isPrefixOf place && place ≠ t.workingDirectory then
      let path := Text.join "/" (place.drop t.workingDirectory.length)
      match e with
      | .file contents => some (path, some contents)
      | .directory =>
        if t.entries.any fun other => place.isPrefixOf other.1 && other.1 ≠ place then none
        else some (path, none)
    else none

end FileTree

end Provisioning
