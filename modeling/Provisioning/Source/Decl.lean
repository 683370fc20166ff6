import Provisioning.Dict
import Provisioning.Source.Literal
import Provisioning.Source.TypeName
import Provisioning.Model.Decl

/-!
# Generated declarations

Classes as they are generated, before anything is written. Types inside code stay types, so that
each file can decide how to write them.
-/

namespace Provisioning.Source

inductive CodePart
  | text (s : String)
  | type (t : TypeName)
  | mark (type : ClassName) (members : List (String × List CodePart))
  deriving Repr

abbrev Code := List CodePart

namespace Code

def text (s : String) : Code := [.text s]

def commaJoin : List Code → Code
  | [] => []
  | [c] => c
  | c :: rest => c ++ .text ", " :: commaJoin rest

end Code

structure Mark where
  type : ClassName
  members : Dict Code
  deriving Repr

namespace Mark

def of (type : ClassName) : Mark := ⟨type, []⟩

def withMember (m : Mark) (name : String) (code : Code) : Mark :=
  { m with members := Dict.put m.members name code }

def toPart (m : Mark) : CodePart := .mark m.type m.members

end Mark

mutual

/-- The code of a constant. A list of one item is written as the item. -/
def constantCode : Constant → Code
  | .bool b => [.text (if b then "true" else "false")]
  | .int n => [.text (Text.decimal n)]
  | .char c => [.text (charLiteral c)]
  | .string s => [.text (stringLiteral s)]
  | .type t => [.type (TypeName.parse t.text), .text ".class"]
  | .enum t constant => [.type (TypeName.parse t.text), .text ("." ++ constant)]
  | .array [item] => constantCode item
  | .array items => .text "\x7b" :: (Code.commaJoin (itemsCode items) ++ [.text "\x7d"])
  | .nested t values => [.mark (ClassName.guess t.erasure) (Dict.ofList (entriesCode values))]

def itemsCode : List Constant → List Code
  | [] => []
  | c :: rest => constantCode c :: itemsCode rest

def entriesCode : List (String × Constant) → List (String × Code)
  | [] => []
  | (name, c) :: rest => (name, constantCode c) :: entriesCode rest

end

def Mark.ofUse (a : AnnotationUse) : Mark :=
  ⟨ClassName.guess a.type.erasure, Dict.ofList (entriesCode a.values)⟩

structure Field where
  type : TypeName
  name : String
  modifiers : Modifiers
  marks : List Mark
  deriving Repr

structure Parameter where
  type : TypeName
  name : String
  marks : List Mark
  deriving Repr

/-- A method, or a constructor when it has no name. A method that returns nothing has no type. -/
structure Method where
  name : Option String
  javadoc : Option String
  marks : List Mark
  modifiers : Modifiers
  returns : Option TypeName
  parameters : List Parameter
  statements : List Code
  deriving Repr

namespace Method

def named (name : String) : Method := ⟨some name, none, [], .empty, none, [], []⟩

def constructor : Method := ⟨none, none, [], .empty, none, [], []⟩

def isConstructor (m : Method) : Bool := m.name.isNone

def declaredName (m : Method) : String := m.name.getD Callable.constructorName

end Method

structure Class where
  name : String
  marks : List Mark
  modifiers : Modifiers
  fields : List Field
  methods : List Method
  classes : List Class
  deriving Repr

namespace Class

def method? (c : Class) (name : String) : Option Method :=
  c.methods.find? fun m => m.name = some name

def constructor? (c : Class) : Option Method := c.methods.find? (·.isConstructor)

def nested? (c : Class) (name : String) : Option Class := c.classes.find? (·.name = name)

end Class

structure File where
  package : String
  content : Class
  comment : Option String
  deriving Repr

def File.className (f : File) : ClassName := .topLevelOf f.package f.content.name

end Provisioning.Source
