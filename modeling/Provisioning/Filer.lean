import Provisioning.Dict
import Provisioning.FileTree
import Provisioning.Source.Layout

/-!
# Filers

Where generated files go. A filer accepts a file once for every qualified name.
-/

namespace Provisioning

structure OutputFile where
  qualifiedName : String
  path : String
  contents : String
  deriving DecidableEq, Repr

def Source.File.path (f : Source.File) : String := Path.ofSource f.package f.content.name

def OutputFile.ofSource (f : Source.File) : OutputFile :=
  ⟨f.className.canonical, f.path, f.text⟩

class Filer (σ : Type) where
  /-- Whether a file of this qualified name was created before. -/
  isCreated : σ → String → Bool
  write : σ → OutputFile → σ × Except WriteError Unit

structure MemoryFiler where
  files : Dict String
  deriving Repr

namespace MemoryFiler

def empty : MemoryFiler := ⟨[]⟩

def write (s : MemoryFiler) (f : OutputFile) : MemoryFiler × Except WriteError Unit :=
  if Dict.contains s.files f.qualifiedName then (s, .error (.alreadyCreated f.qualifiedName))
  else (⟨Dict.put s.files f.qualifiedName f.contents⟩, .ok ())

instance : Filer MemoryFiler where
  isCreated s name := Dict.contains s.files name
  write := write

end MemoryFiler

structure RefusingFiler where
  inner : MemoryFiler
  refusal : String → Option String

namespace RefusingFiler

def write (s : RefusingFiler) (f : OutputFile) : RefusingFiler × Except WriteError Unit :=
  match s.refusal f.qualifiedName with
  | some message => (s, .error (.refused message))
  | none =>
    let (inner, result) := s.inner.write f
    ({ s with inner }, result)

instance : Filer RefusingFiler where
  isCreated s name := Filer.isCreated s.inner name
  write := write

end RefusingFiler

/-- A filer that writes below a directory. A name counts as created from the first attempt on. -/
structure DirectoryFiler where
  root : String
  created : List String
  tree : FileTree
  deriving Repr

namespace DirectoryFiler

def ofRoot (root : String) (tree : FileTree) : DirectoryFiler := ⟨root, [], tree⟩

def store (root : String) (tree : FileTree) (f : OutputFile) :
    FileTree × Except WriteError Unit :=
  let path := Path.join root f.path
  match tree.makeParents path with
  | (tree, .error e) => (tree, .error (.system e))
  | (tree, .ok ()) =>
    match tree.writeFile path f.contents with
    | .ok tree => (tree, .ok ())
    | .error e => (tree, .error (.system e))

def write (s : DirectoryFiler) (f : OutputFile) : DirectoryFiler × Except WriteError Unit :=
  if s.created.contains f.qualifiedName then (s, .error (.alreadyCreated f.qualifiedName))
  else
    let (tree, result) := store s.root s.tree f
    ({ s with created := s.created ++ [f.qualifiedName], tree }, result)

instance : Filer DirectoryFiler where
  isCreated s name := s.created.contains name
  write := write

end DirectoryFiler

structure Recorded (σ : Type) where
  inner : σ
  accepted : List OutputFile

namespace Recorded

variable {σ : Type} [Filer σ]

def write (s : Recorded σ) (f : OutputFile) : Recorded σ × Except WriteError Unit :=
  match Filer.write s.inner f with
  | (inner, .ok ()) => (⟨inner, s.accepted ++ [f]⟩, .ok ())
  | (inner, .error e) => (⟨inner, s.accepted⟩, .error e)

instance : Filer (Recorded σ) where
  isCreated s name := Filer.isCreated s.inner name
  write := write

end Recorded

end Provisioning
