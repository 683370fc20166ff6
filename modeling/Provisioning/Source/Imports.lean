import Provisioning.Source.Decl

/-!
# Imports

The classes that a file mentions, and which of them it imports: those of another package whose
simple name is not used for two classes and is not declared in the file itself.
-/

namespace Provisioning.Source

mutual

def CodePart.classes : CodePart → List ClassName
  | .text _ => []
  | .type t => t.classes
  | .mark name members => name :: CodePart.classesOfMembers members

def CodePart.classesOfMembers : List (String × List CodePart) → List ClassName
  | [] => []
  | (_, code) :: rest => CodePart.classesOfCode code ++ CodePart.classesOfMembers rest

def CodePart.classesOfCode : List CodePart → List ClassName
  | [] => []
  | part :: rest => CodePart.classes part ++ CodePart.classesOfCode rest

end

def Code.classes (code : Code) : List ClassName := CodePart.classesOfCode code

def Mark.classes (m : Mark) : List ClassName := m.toPart.classes

def Field.classes (f : Field) : List ClassName := f.type.classes ++ f.marks.flatMap Mark.classes

def Parameter.classes (p : Parameter) : List ClassName :=
  p.type.classes ++ p.marks.flatMap Mark.classes

def Method.classes (m : Method) : List ClassName :=
  m.marks.flatMap Mark.classes ++ (m.returns.toList.flatMap TypeName.classes ++
    (m.parameters.flatMap Parameter.classes ++ m.statements.flatMap Code.classes))

mutual

def Class.mentions : Class → List ClassName
  | ⟨_, marks, _, fields, methods, classes⟩ =>
    marks.flatMap Mark.classes ++ (fields.flatMap Field.classes ++
      (methods.flatMap Method.classes ++ Class.mentionsOf classes))

def Class.mentionsOf : List Class → List ClassName
  | [] => []
  | c :: rest => Class.mentions c ++ Class.mentionsOf rest

end

mutual

def Class.declared : Class → List String
  | ⟨name, _, _, _, _, classes⟩ => name :: Class.declaredOf classes

def Class.declaredOf : List Class → List String
  | [] => []
  | c :: rest => Class.declared c ++ Class.declaredOf rest

end

def implicitPackage : String := "java.lang"

/-- Whether a top-level class is imported into a file of `package` that declares the names
`declared` and mentions the top-level classes `mentioned`. -/
def isImported (package : String) (declared : List String) (mentioned : List ClassName)
    (c : ClassName) : Bool :=
  mentioned.all (fun other => other.outer ≠ c.outer || other = c) &&
    !declared.contains c.outer && !c.package.isEmpty && c.package ≠ package &&
    c.package ≠ implicitPackage

namespace File

def imports (f : File) : Dict ClassName :=
  let mentioned := f.content.mentions.map ClassName.topLevel
  let imported := mentioned.filter (isImported f.package f.content.declared mentioned)
  Dict.ofList (imported.map fun c => (c.outer, c))

def importedNames (f : File) : List String :=
  Dict.keys (Dict.ofList ((Dict.values f.imports).map fun c => (c.canonical, ())))

end File

end Provisioning.Source
