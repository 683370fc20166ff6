import Provisioning.Json.Reader
import Provisioning.Model.Decl

/-!
# Reading declarations

The readers of the element model. A constant names its kind beside its value, in either order; a
member carries its kind among its own fields, so it is held before it is read.
-/

namespace Provisioning

open Json

def TypeText.read : Reader TypeText := fun s t => (Reader.text s t).map TypeText.mk

def Modifier.read : Reader Modifier := Reader.word Modifier.ofKeyword?

def Modifiers.read : Reader Modifiers := fun s t =>
  (Reader.list Modifier.read s t).map Modifiers.ofList

namespace DeclKind

def keyword : DeclKind → String
  | .class => "class"
  | .interface => "interface"
  | .enum => "enum"
  | .annotationType => "annotation"

def ofKeyword? (word : String) : Option DeclKind :=
  [DeclKind.class, .interface, .enum, .annotationType].find? (·.keyword = word)

def read : Reader DeclKind := Reader.word ofKeyword?

end DeclKind

namespace Constant

inductive Kind
  | bool
  | int
  | char
  | string
  | type
  | enum
  | array
  | nested
  deriving DecidableEq, Repr

def Kind.keyword : Kind → String
  | .bool => "bool"
  | .int => "int"
  | .char => "char"
  | .string => "string"
  | .type => "type"
  | .enum => "enum"
  | .array => "array"
  | .nested => "annotation"

def Kind.all : List Kind := [.bool, .int, .char, .string, .type, .enum, .array, .nested]

def Kind.ofKeyword? (word : String) : Option Kind := Kind.all.find? (·.keyword = word)

/-- The kind at the head of a list: its keyword, or in a held part also its place among the kinds,
counted from zero. -/
def Kind.readHead : Reader Kind
  | _, .text s => s.bind Kind.ofKeyword?
  | s, .number (some (.whole n)) => if s.held ∧ 0 ≤ n then Kind.all[n.toNat]? else none
  | _, _ => none

def valueFirst (entries : List (String × Tree)) : Bool :=
  match entries.find? fun e => e.1 = "kind" || e.1 = "value" with
  | some e => e.1 = "value"
  | none => false

/-- The kind of a constant, its value and the scope of the value. A value that stands before its
kind is held until the kind is known. -/
def tagged? (s : Scope) : Tree → Option (Kind × Tree × Scope)
  | .record entries => do
    let fields ← Fields.ofRecord? ["kind", "value"] s (.record entries)
    let kind ← fields.required "kind" (Reader.word Kind.ofKeyword?)
    let value ← fields.find "value"
    if valueFirst (← Fields.keyed? entries) then
      guard (value.readable fields.scope.levels)
      return (kind, value, { fields.scope with held := true })
    else return (kind, value, fields.scope)
  | .list items => do
    let fields ← Fields.ofList? ["kind", "value"] s (.list items)
    let kind ← fields.required "kind" Kind.readHead
    let value ← fields.find "value"
    return (kind, value, fields.scope)
  | _ => none

def readUse (read : Reader Constant) : Reader AnnotationUse := fun s t => do
  let fields ← Fields.of? ["type", "values"] s t
  let type ← fields.required "type" TypeText.read
  let values ← fields.optional "values" [] (Reader.dict read)
  return ⟨type, values⟩

def readEnum : Reader Constant := fun s t => do
  let fields ← Fields.ofRecord? ["type", "constant"] s t
  let type ← fields.required "type" TypeText.read
  let constant ← fields.required "constant" Reader.text
  return .enum type constant

/-- Every constant takes up a nesting level, so as many steps as there are levels are enough. -/
def readWithin : Nat → Reader Constant
  | 0 => fun _ _ => none
  | steps + 1 => fun s t => do
    let (kind, value, inner) ← tagged? s t
    match kind with
    | .bool => (Reader.bool inner value).map .bool
    | .int => (Reader.int64 inner value).map .int
    | .char => (Reader.char inner value).map .char
    | .string => (Reader.text inner value).map .string
    | .type => (TypeText.read inner value).map .type
    | .enum => readEnum inner value
    | .array => (Reader.list (readWithin steps) inner value).map .array
    | .nested => (readUse (readWithin steps) inner value).map fun a => .nested a.type a.values

def read : Reader Constant := fun s t => readWithin s.levels s t

end Constant

def AnnotationUse.read : Reader AnnotationUse := Constant.readUse Constant.read

def Variable.read : Reader Variable := fun s t => do
  let fields ← Fields.of? ["name", "type", "modifiers", "annotations"] s t
  let name ← fields.required "name" Reader.text
  let type ← fields.required "type" TypeText.read
  let modifiers ← fields.optional "modifiers" .empty Modifiers.read
  let annotations ← fields.optional "annotations" [] (Reader.list AnnotationUse.read)
  return { name, type, modifiers, annotations }

def Callable.read : Reader Callable := fun s t => do
  let fields ← Fields.of? ["name", "modifiers", "return_type", "parameters", "annotations"] s t
  let name ← fields.optional "name" "" Reader.text
  let modifiers ← fields.optional "modifiers" .empty Modifiers.read
  let returns ← fields.optional "return_type" .void TypeText.read
  let parameters ← fields.optional "parameters" [] (Reader.list Variable.read)
  let annotations ← fields.optional "annotations" [] (Reader.list AnnotationUse.read)
  return { name, modifiers, returns, parameters, annotations }

namespace Member

def untag? : Tree → Option (String × Tree)
  | .record entries => do
    match entries.filter (·.1 = some "kind") with
    | [(_, .text kind)] => return (← kind, .record (entries.filter (·.1 ≠ some "kind")))
    | _ => none
  | .list (.text kind :: rest) => do return (← kind, .list rest)
  | _ => none

def read : Reader Member := fun s t => do
  guard (t.readable s.levels)
  let (kind, rest) ← untag? t
  let held : Scope := { s with held := true }
  if kind = "method" then (Callable.read held rest).map .method
  else if kind = "constructor" then (Callable.read held rest).map .constructor
  else if kind = "field" then (Variable.read held rest).map .field
  else none

end Member

def TypeDecl.read : Reader TypeDecl := fun s t => do
  let fields ← Fields.of?
    ["name", "kind", "modifiers", "superclass", "interfaces", "annotations", "members"] s t
  let name ← fields.required "name" TypeText.read
  let kind ← fields.optional "kind" .class DeclKind.read
  let modifiers ← fields.optional "modifiers" .empty Modifiers.read
  let superclass ← fields.optional "superclass" none (Reader.nullable TypeText.read)
  let interfaces ← fields.optional "interfaces" [] (Reader.list TypeText.read)
  let annotations ← fields.optional "annotations" [] (Reader.list AnnotationUse.read)
  let members ← fields.optional "members" [] (Reader.list Member.read)
  return { name, kind, modifiers, superclass, interfaces, annotations, members }

end Provisioning
