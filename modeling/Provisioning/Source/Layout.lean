import Provisioning.Source.Imports

/-!
# Layout

Writing a source file. How a class is written depends on where it is mentioned: a class of the file
itself by the names from the enclosing class inwards, an imported class and one that needs no import
by its simple names, everything else by its canonical name.
-/

namespace Provisioning.Source

/-- What decides how a class name is written at a place of a file. -/
structure Naming where
  package : String
  imports : Dict ClassName
  declared : List String
  /-- The classes around the place, outermost first. -/
  enclosing : List String
  deriving Repr

def commonStart : List String → List String → Nat
  | a :: as, b :: bs => if a = b then commonStart as bs + 1 else 0
  | _, _ => 0

namespace Naming

def ofFile (f : File) : Naming := ⟨f.package, f.imports, f.content.declared, []⟩

def inside (n : Naming) (name : String) : Naming := { n with enclosing := n.enclosing ++ [name] }

def isShort (n : Naming) (c : ClassName) : Bool :=
  match Dict.get? n.imports c.outer with
  | some imported => imported.package = c.package
  | none => (c.package = n.package || c.package = implicitPackage) && !n.declared.contains c.outer

def className (n : Naming) (c : ClassName) : String :=
  let common := if c.package = n.package then commonStart c.simpleNames n.enclosing else 0
  if 0 < common then Text.join "." (c.simpleNames.drop (min common (c.simpleNames.length - 1)))
  else if n.isShort c then c.dotted
  else c.canonical

mutual

def typeName (n : Naming) : TypeName → String
  | .primitive keyword => keyword
  | .class name => n.className name
  | .parameterized raw arguments =>
    n.className raw ++ "<" ++ Text.join ", " (typeNames n arguments) ++ ">"
  | .array element => typeName n element ++ "[]"
  | .wildcard => "?"
  | .bounded bound type => "? " ++ bound.keyword ++ " " ++ typeName n type

def typeNames (n : Naming) : List TypeName → List String
  | [] => []
  | t :: rest => typeName n t :: typeNames n rest

end

/-- An annotation whose members are written already: alone without members, with its value in
brackets when that is its only member, else with names. -/
def annotated (name : String) : List (String × String) → String
  | [] => "@" ++ name
  | [(member, code)] =>
    if member = "value" then "@" ++ name ++ "(" ++ code ++ ")"
    else "@" ++ name ++ "(" ++ member ++ " = " ++ code ++ ")"
  | members =>
    "@" ++ name ++ "(" ++ Text.join ", " (members.map fun m => m.1 ++ " = " ++ m.2) ++ ")"

mutual

def codePart (n : Naming) : CodePart → String
  | .text s => s
  | .type t => n.typeName t
  | .mark type members => annotated (n.className type) (memberTexts n members)

def memberTexts (n : Naming) : List (String × List CodePart) → List (String × String)
  | [] => []
  | (name, code) :: rest => (name, codeParts n code) :: memberTexts n rest

def codeParts (n : Naming) : List CodePart → String
  | [] => ""
  | part :: rest => codePart n part ++ codeParts n rest

end

def code (n : Naming) (c : Code) : String := codeParts n c

def mark (n : Naming) (m : Mark) : String := n.codePart m.toPart

def parameter (n : Naming) (p : Parameter) : String :=
  String.join (p.marks.map fun m => n.mark m ++ " ") ++ n.typeName p.type ++ " " ++ p.name

end Naming

def line (depth : Nat) (s : String) : String := String.ofList (List.replicate (2 * depth) ' ') ++ s

def modifierText (modifiers : Modifiers) : String :=
  String.join (modifiers.toList.map fun m => m.keyword ++ " ")

def markLines (n : Naming) (depth : Nat) (marks : List Mark) : List String :=
  marks.map fun m => line depth (n.mark m)

def javadocLines (depth : Nat) (text : String) : List String :=
  line depth "/**" ::
    ((Text.lines text).map fun s => line depth (if s.isEmpty then " *" else " * " ++ s)) ++
    [line depth " */"]

def Field.lines (n : Naming) (depth : Nat) (f : Field) : List String :=
  markLines n depth f.marks ++
    [line depth (modifierText f.modifiers ++ n.typeName f.type ++ " " ++ f.name ++ ";")]

def Method.head (n : Naming) (owner : String) (m : Method) : String :=
  match m.name with
  | none => owner
  | some name => (match m.returns with | some t => n.typeName t | none => "void") ++ " " ++ name

def Method.lines (n : Naming) (depth : Nat) (owner : String) (m : Method) : List String :=
  (m.javadoc.toList.flatMap (javadocLines depth)) ++ markLines n depth m.marks ++
    line depth (modifierText m.modifiers ++ m.head n owner ++ "(" ++
      Text.join ", " (m.parameters.map n.parameter) ++ ") \x7b") ::
    (m.statements.map fun s => line (depth + 1) (n.code s ++ ";")) ++ [line depth "\x7d"]

def separate : List (List String) → List String
  | [] => []
  | [block] => block
  | block :: rest => block ++ "" :: separate rest

mutual

/-- The lines of a class: its annotations, its head, and its fields, constructors, methods and nested
classes in this order. -/
def Class.lines (outside : Naming) (depth : Nat) : Class → List String
  | ⟨name, marks, modifiers, fields, methods, classes⟩ =>
    let n := outside.inside name
    let constructors := methods.filter Method.isConstructor
    let others := methods.filter fun m => !m.isConstructor
    markLines n depth marks ++
      line depth (modifierText modifiers ++ "class " ++ name ++ " \x7b") ::
      separate (fields.map (Field.lines n (depth + 1)) ++
        (constructors ++ others).map (Method.lines n (depth + 1) name) ++
        Class.blocks n (depth + 1) classes) ++
      [line depth "\x7d"]

def Class.blocks (n : Naming) (depth : Nat) : List Class → List (List String)
  | [] => []
  | c :: rest => Class.lines n depth c :: Class.blocks n depth rest

end

namespace File

def commentLines : Option String → List String
  | some text => (Text.lines text).map ("// " ++ ·) ++ [""]
  | none => []

def packageLines (package : String) : List String :=
  if package.isEmpty then [] else ["package " ++ package ++ ";", ""]

def importLines : List String → List String
  | [] => []
  | names => names.map (fun name => "import " ++ name ++ ";") ++ [""]

def lines (f : File) : List String :=
  commentLines f.comment ++ packageLines f.package ++ importLines f.importedNames ++
    f.content.lines (.ofFile f) 0

def text (f : File) : String := String.join (f.lines.map (· ++ "\n"))

end File

end Provisioning.Source
