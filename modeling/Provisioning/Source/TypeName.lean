import Provisioning.Source.ClassName
import Provisioning.Text.Alphanumeric
import Provisioning.Text.Blank

/-!
# Type names

The types that stand in generated code, and their reader. The reader takes any text: it skips white
space, leaves out what is missing and stops at what it cannot use.
-/

namespace Provisioning.Source

inductive Bound
  | «extends»
  | super
  deriving DecidableEq, Repr

def Bound.keyword : Bound → String
  | .extends => "extends"
  | .super => "super"

/-- A type in generated code. A primitive type is given by its keyword, `void` among them. -/
inductive TypeName
  | primitive (keyword : String)
  | class (name : ClassName)
  | parameterized (raw : ClassName) (arguments : List TypeName)
  | array (element : TypeName)
  | wildcard
  | bounded (bound : Bound) (type : TypeName)
  deriving Repr

namespace TypeName

def keywords : List String :=
  ["void", "boolean", "byte", "short", "int", "long", "char", "float", "double"]

def isPrimitive : TypeName → Bool
  | .primitive keyword => keyword ≠ "void"
  | _ => false

mutual

def classes : TypeName → List ClassName
  | .primitive _ => []
  | .class name => [name]
  | .parameterized raw arguments => raw :: classesOf arguments
  | .array element => classes element
  | .wildcard => []
  | .bounded _ type => classes type

def classesOf : List TypeName → List ClassName
  | [] => []
  | t :: rest => classes t ++ classesOf rest

end

def eat (c : Char) (s : List Char) : Option (List Char) :=
  match s.dropWhile Text.isBlank with
  | d :: rest => if d = c then some rest else none
  | [] => none

def isNameChar (c : Char) : Bool := Text.isAlphanumeric c || c = '_' || c = '$' || c = '.'

def takeName (s : List Char) : String × List Char :=
  let s := s.dropWhile Text.isBlank
  (String.ofList (s.takeWhile isNameChar), s.dropWhile isNameChar)

def readArrays : Nat → TypeName → List Char → TypeName × List Char
  | 0, t, s => (t, s)
  | steps + 1, t, s =>
    match eat '[' s with
    | some rest => readArrays steps (.array t) ((eat ']' rest).getD rest)
    | none => (t, s)

mutual

/-- Reads a type from the head of the text. Every step within a step follows at least one character
more, so as many steps as characters are enough. -/
def readType : Nat → List Char → TypeName × List Char
  | 0, s => (.class (ClassName.guess ""), s)
  | steps + 1, s =>
    let head : TypeName × List Char := match eat '?' s with
      | some rest =>
        let (word, rest) := takeName rest
        if word = Bound.extends.keyword then
          let (t, rest) := readType steps rest
          (.bounded .extends t, rest)
        else if word = Bound.super.keyword then
          let (t, rest) := readType steps rest
          (.bounded .super t, rest)
        else (.wildcard, rest)
      | none =>
        let (name, rest) := takeName s
        if keywords.contains name then (.primitive name, rest)
        else match eat '<' rest with
          | some rest =>
            let (first, rest) := readType steps rest
            let (more, rest) := readMore steps rest
            (.parameterized (ClassName.guess name) (first :: more), (eat '>' rest).getD rest)
          | none => (.class (ClassName.guess name), rest)
    readArrays head.2.length head.1 head.2

def readMore : Nat → List Char → List TypeName × List Char
  | 0, s => ([], s)
  | steps + 1, s =>
    match eat ',' s with
    | some rest =>
      let (t, rest) := readType steps rest
      let (more, rest) := readMore steps rest
      (t :: more, rest)
    | none => ([], s)

end

/-- The type at the head of a text, such as `java.util.Map<K, ? extends V>[]`. -/
def parse (text : String) : TypeName := (readType (text.toList.length + 1) text.toList).1

end TypeName

end Provisioning.Source
