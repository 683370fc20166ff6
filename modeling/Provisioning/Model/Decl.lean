import Provisioning.Dict
import Provisioning.Model.Modifiers
import Provisioning.Model.TypeText

/-!
# Declarations

What is known of the declarations of a program: types with their supertypes, members and
annotations.
-/

namespace Provisioning

/-- A constant value of an annotation property. `nested` is the use of another annotation, with the
values of its properties. -/
inductive Constant
  | bool (b : Bool)
  | int (n : Int)
  | char (c : Char)
  | string (s : String)
  | type (t : TypeText)
  | enum (type : TypeText) (constant : String)
  | array (items : List Constant)
  | nested (type : TypeText) (values : List (String × Constant))
  deriving Repr

structure AnnotationUse where
  type : TypeText
  values : Dict Constant
  deriving Repr

namespace AnnotationUse

def of (type : String) : AnnotationUse := ⟨⟨type⟩, []⟩

def withValue (a : AnnotationUse) (name : String) (value : Constant) : AnnotationUse :=
  { a with values := Dict.put a.values name value }

def isNamed (a : AnnotationUse) (name : String) : Bool := a.type.text = name

end AnnotationUse

structure Variable where
  name : String
  type : TypeText
  modifiers : Modifiers
  annotations : List AnnotationUse
  deriving Repr

namespace Variable

def of (name type : String) : Variable := ⟨name, ⟨type⟩, .empty, []⟩

def annotated (v : Variable) (a : AnnotationUse) : Variable :=
  { v with annotations := v.annotations ++ [a] }

end Variable

structure Callable where
  name : String
  modifiers : Modifiers
  returns : TypeText
  parameters : List Variable
  annotations : List AnnotationUse
  deriving Repr

namespace Callable

def constructorName : String := "<init>"

def method (name returns : String) : Callable := ⟨name, .empty, ⟨returns⟩, [], []⟩

def constructor : Callable := ⟨constructorName, .empty, .void, [], []⟩

def withParameter (m : Callable) (p : Variable) : Callable :=
  { m with parameters := m.parameters ++ [p] }

def annotated (m : Callable) (a : AnnotationUse) : Callable :=
  { m with annotations := m.annotations ++ [a] }

def withModifier (m : Callable) (modifier : Modifier) : Callable :=
  { m with modifiers := m.modifiers.insert modifier }

def findAnnotated? (m : Callable) (name : String) : Option AnnotationUse :=
  m.annotations.find? (·.isNamed name)

def isAnnotated (m : Callable) (name : String) : Bool := m.annotations.any (·.isNamed name)

def signature (m : Callable) : String × List TypeText := (m.name, m.parameters.map Variable.type)

end Callable

inductive Member
  | method (m : Callable)
  | constructor (m : Callable)
  | field (v : Variable)
  deriving Repr

namespace Member

def method? : Member → Option Callable
  | .method m => some m
  | _ => none

def constructor? : Member → Option Callable
  | .constructor m => some m
  | _ => none

end Member

inductive DeclKind
  | «class»
  | interface
  | enum
  | annotationType
  deriving DecidableEq, Repr, Inhabited

structure TypeDecl where
  name : TypeText
  kind : DeclKind
  modifiers : Modifiers
  superclass : Option TypeText
  interfaces : List TypeText
  annotations : List AnnotationUse
  members : List Member
  deriving Repr

namespace TypeDecl

def ofKind (kind : DeclKind) (name : String) : TypeDecl := ⟨⟨name⟩, kind, .empty, none, [], [], []⟩

def extending (d : TypeDecl) (superclass : String) : TypeDecl :=
  { d with superclass := some ⟨superclass⟩ }

def implementing (d : TypeDecl) (interface : String) : TypeDecl :=
  { d with interfaces := d.interfaces ++ [⟨interface⟩] }

def annotated (d : TypeDecl) (a : AnnotationUse) : TypeDecl :=
  { d with annotations := d.annotations ++ [a] }

def withModifier (d : TypeDecl) (modifier : Modifier) : TypeDecl :=
  { d with modifiers := d.modifiers.insert modifier }

def withField (d : TypeDecl) (v : Variable) : TypeDecl :=
  { d with members := d.members ++ [.field v] }

/-- Adds a method, or a constructor when it has the name of one. -/
def withMember (d : TypeDecl) (m : Callable) : TypeDecl :=
  let member := if m.name = Callable.constructorName then Member.constructor m else .method m
  { d with members := d.members ++ [member] }

def findAnnotated? (d : TypeDecl) (name : String) : Option AnnotationUse :=
  d.annotations.find? (·.isNamed name)

def isAnnotated (d : TypeDecl) (name : String) : Bool := d.annotations.any (·.isNamed name)

def isInterface (d : TypeDecl) : Bool := d.kind = .interface

def isAbstract (d : TypeDecl) : Bool := d.modifiers.isAbstract

def supertypes (d : TypeDecl) : List TypeText := d.superclass.toList ++ d.interfaces

def key (d : TypeDecl) : String := d.name.erasure

def openConstructors (d : TypeDecl) : List Callable :=
  (d.members.filterMap Member.constructor?).filter fun m =>
    !m.modifiers.isPrivate && !m.modifiers.isProtected

end TypeDecl

end Provisioning
