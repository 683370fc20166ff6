import Provisioning.Text.Case
import Provisioning.Text.Pieces

/-!
# Class names

A class is named by its package, the simple name of its top-level class and the simple names of the
classes on the way inwards.
-/

namespace Provisioning.Source

structure ClassName where
  package : String
  outer : String
  inner : List String
  deriving DecidableEq, Repr, Inhabited

namespace ClassName

def topLevelOf (package simple : String) : ClassName := ⟨package, simple, []⟩

def simpleNames (c : ClassName) : List String := c.outer :: c.inner

def simpleName (c : ClassName) : String := c.inner.getLastD c.outer

def nested (c : ClassName) (simple : String) : ClassName := { c with inner := c.inner ++ [simple] }

def topLevel (c : ClassName) : ClassName := { c with inner := [] }

def dotted (c : ClassName) : String := Text.join "." c.simpleNames

def canonical (c : ClassName) : String :=
  if c.package.isEmpty then c.dotted else c.package ++ "." ++ c.dotted

def startsUpper : List Char → Bool
  | c :: _ => Text.isUppercase c
  | [] => false

/-- The package segments and the class segments of a name: the class begins at the first segment in
upper case, or is the last segment alone. -/
def guessSplit (segments : List (List Char)) : List (List Char) × List (List Char) :=
  match segments.dropWhile fun s => !startsUpper s with
  | [] => (segments.dropLast, segments.drop (segments.length - 1))
  | names => (segments.takeWhile fun s => !startsUpper s, names)

/-- Reads a qualified name. Segments in lower case are the package; empty segments do not count. -/
def guess (name : String) : ClassName :=
  let segments := (Text.pieces '.' name.toList).filter fun s => !s.isEmpty
  match guessSplit segments with
  | (_, []) => topLevelOf "" name
  | (package, outer :: inner) =>
    ⟨Text.join "." (package.map String.ofList), String.ofList outer, inner.map String.ofList⟩

end ClassName

end Provisioning.Source
