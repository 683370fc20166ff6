import Provisioning.Text.Pieces

/-!
# Paths

Paths with `/` between their components, kept as they are written.
-/

namespace Provisioning.Path

def isAbsolute (path : String) : Bool := path.toList.head? = some '/'

/-- A path behind a directory; an absolute path stands for itself. -/
def join (directory path : String) : String :=
  if isAbsolute path then path
  else if directory.isEmpty || directory.toList.getLast? = some '/' then directory ++ path
  else directory ++ "/" ++ path

def segments (path : String) : List String := Text.split '/' path

def isIdle (segment : String) : Bool := segment.isEmpty || segment = "."

def steps (path : String) : List String := (segments path).filter fun c => !c.isEmpty

def components (path : String) : List String := (segments path).filter fun c => !isIdle c

/-- The path up to the directory that holds what it names, as it is written. It is empty if the path
begins with that name. -/
def parent (path : String) : String :=
  let above := ((segments path).reverse.dropWhile isIdle).drop 1
  Text.join "/" (above.dropWhile isIdle).reverse

def endsInSlash (path : String) : Bool := path.toList.getLast? = some '/'

def ofSource (package name : String) : String :=
  join (((Text.split '.' package).filter fun s => !s.isEmpty).foldl join "") (name ++ ".java")

end Provisioning.Path
