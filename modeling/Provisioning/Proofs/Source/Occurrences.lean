import Provisioning.Proofs.Source.ImportLines
import Provisioning.Proofs.Source.WrittenNames

/-! # Where class names stand in a file

The lines of a file taken apart into text and class names, each name with the
naming that writes it. The writer and the collector of imports walk over the
same declarations on their own; both meet the same classes, except that only the
collector looks at the result type of a constructor. So the decision made once
for the whole file is the one that every line follows.
-/

namespace Provisioning.Source

open Text (join)

/-- A part of a line: text, or a class name that a naming writes. -/
inductive Piece
  | plain (s : String)
  | name (n : Naming) (c : ClassName)
  deriving Repr

namespace Piece

def text : Piece → String
  | plain s => s
  | name n c => n.className c

def occurrence? : Piece → Option (Naming × ClassName)
  | plain _ => none
  | name n c => some (n, c)

def joined (ps : List Piece) : String := String.join (ps.map text)

def occurrences (ps : List Piece) : List (Naming × ClassName) := ps.filterMap occurrence?

def separated (sep : String) : List (List Piece) → List Piece
  | [] => []
  | [ps] => ps
  | ps :: rest => ps ++ .plain sep :: separated sep rest

@[simp] theorem joined_nil : joined [] = "" := rfl

@[simp] theorem joined_cons (p : Piece) (ps : List Piece) : joined (p :: ps) = p.text ++ joined ps := by
  simp [joined]

@[simp] theorem joined_append (ps qs : List Piece) : joined (ps ++ qs) = joined ps ++ joined qs := by
  simp [joined]

theorem joined_flatMap {α : Type} (l : List α) (g : α → List Piece) :
    joined (l.flatMap g) = String.join (l.map fun a => joined (g a)) := by
  induction l with
  | nil => rfl
  | cons a rest ih => rw [List.flatMap_cons, joined_append, ih, List.map_cons, String.join_cons]

theorem joined_separated (sep : String) (l : List (List Piece)) :
    joined (separated sep l) = join sep (l.map joined) := by
  fun_induction separated sep l with
  | case1 => rfl
  | case2 ps => rfl
  | case3 ps rest hne ih =>
    cases rest with
    | nil => exact absurd rfl hne
    | cons qs more => simp [ih, join, text, String.append_assoc]

@[simp] theorem text_plain (s : String) : (plain s).text = s := rfl

@[simp] theorem text_name (n : Naming) (c : ClassName) : (name n c).text = n.className c := rfl

@[simp] theorem occurrences_nil : occurrences [] = [] := rfl

@[simp] theorem occurrences_plain (s : String) (ps : List Piece) :
    occurrences (plain s :: ps) = occurrences ps := rfl

@[simp] theorem occurrences_name (n : Naming) (c : ClassName) (ps : List Piece) :
    occurrences (name n c :: ps) = (n, c) :: occurrences ps := rfl

@[simp] theorem occurrences_append (ps qs : List Piece) :
    occurrences (ps ++ qs) = occurrences ps ++ occurrences qs := List.filterMap_append

theorem occurrences_flatMap {α : Type} (l : List α) (g : α → List Piece) :
    occurrences (l.flatMap g) = l.flatMap fun a => occurrences (g a) := by
  induction l with
  | nil => rfl
  | cons a rest ih => rw [List.flatMap_cons, occurrences_append, ih, List.flatMap_cons]

theorem occurrences_separated (sep : String) (l : List (List Piece)) :
    occurrences (separated sep l) = l.flatMap occurrences := by
  fun_induction separated sep l with
  | case1 => rfl
  | case2 ps => simp
  | case3 ps rest hne ih => simp [ih]

end Piece

open Piece (joined occurrences separated)

/-! ## The pieces of types and code -/

namespace Naming

mutual

def typePieces (n : Naming) : TypeName → List Piece
  | .primitive keyword => [.plain keyword]
  | .class name => [.name n name]
  | .parameterized raw arguments =>
    .name n raw :: .plain "<" :: (separated ", " (typesPieces n arguments) ++ [.plain ">"])
  | .array element => typePieces n element ++ [.plain "[]"]
  | .wildcard => [.plain "?"]
  | .bounded bound type => .plain ("? " ++ bound.keyword ++ " ") :: typePieces n type

def typesPieces (n : Naming) : List TypeName → List (List Piece)
  | [] => []
  | t :: rest => typePieces n t :: typesPieces n rest

end

def memberPieces (m : String × List Piece) : List Piece := .plain (m.1 ++ " = ") :: m.2

def annotatedPieces (name : Piece) : List (String × List Piece) → List Piece
  | [] => [.plain "@", name]
  | [(member, code)] =>
    if member = "value" then .plain "@" :: name :: .plain "(" :: (code ++ [.plain ")"])
    else .plain "@" :: name :: .plain ("(" ++ member ++ " = ") :: (code ++ [.plain ")"])
  | members =>
    .plain "@" :: name :: .plain "(" ::
      (separated ", " (members.map memberPieces) ++ [.plain ")"])

mutual

def partPieces (n : Naming) : CodePart → List Piece
  | .text s => [.plain s]
  | .type t => n.typePieces t
  | .mark type members => annotatedPieces (.name n type) (membersPieces n members)

def membersPieces (n : Naming) : List (String × List CodePart) → List (String × List Piece)
  | [] => []
  | (name, code) :: rest => (name, codePieces n code) :: membersPieces n rest

def codePieces (n : Naming) : List CodePart → List Piece
  | [] => []
  | part :: rest => partPieces n part ++ codePieces n rest

end

def markPieces (n : Naming) (m : Mark) : List Piece := n.partPieces m.toPart

def parameterPieces (n : Naming) (p : Parameter) : List Piece :=
  p.marks.flatMap (fun m => n.markPieces m ++ [.plain " "]) ++
    (n.typePieces p.type ++ [.plain " ", .plain p.name])

mutual

theorem joined_typePieces (n : Naming) (t : TypeName) : joined (n.typePieces t) = n.typeName t := by
  cases t with
  | primitive keyword => simp [typePieces, typeName]
  | «class» name => simp [typePieces, typeName]
  | parameterized raw arguments =>
    simp [typePieces, typeName, Piece.joined_separated, joined_typesPieces n arguments,
      String.append_assoc]
  | array element => simp [typePieces, typeName, joined_typePieces n element]
  | wildcard => simp [typePieces, typeName]
  | bounded bound type => simp [typePieces, typeName, joined_typePieces n type]

theorem joined_typesPieces (n : Naming) (ts : List TypeName) :
    (n.typesPieces ts).map joined = n.typeNames ts := by
  cases ts with
  | nil => rfl
  | cons t rest =>
    simp [typesPieces, typeNames, joined_typePieces n t, joined_typesPieces n rest]

end

mutual

theorem occurrences_typePieces (n : Naming) (t : TypeName) :
    occurrences (n.typePieces t) = t.classes.map (n, ·) := by
  cases t with
  | primitive keyword => rfl
  | «class» name => rfl
  | parameterized raw arguments =>
    simp [typePieces, TypeName.classes, Piece.occurrences_separated,
      occurrences_typesPieces n arguments]
  | array element => simp [typePieces, TypeName.classes, occurrences_typePieces n element]
  | wildcard => rfl
  | bounded bound type => simp [typePieces, TypeName.classes, occurrences_typePieces n type]

theorem occurrences_typesPieces (n : Naming) (ts : List TypeName) :
    (n.typesPieces ts).flatMap occurrences = (TypeName.classesOf ts).map (n, ·) := by
  cases ts with
  | nil => rfl
  | cons t rest =>
    simp [typesPieces, TypeName.classesOf, occurrences_typePieces n t,
      occurrences_typesPieces n rest]

end

theorem joined_annotatedPieces (name : Piece) (members : List (String × List Piece)) :
    joined (annotatedPieces name members) =
      annotated name.text (members.map fun m => (m.1, joined m.2)) := by
  match members with
  | [] => simp [annotatedPieces, annotated]
  | [(member, code)] =>
    by_cases hv : member = "value" <;> simp [annotatedPieces, annotated, hv, String.append_assoc]
  | a :: b :: rest =>
    simp [annotatedPieces, annotated, Piece.joined_separated, memberPieces, Function.comp_def,
      String.append_assoc]

theorem occurrences_annotatedPieces (n : Naming) (c : ClassName)
    (members : List (String × List Piece)) :
    occurrences (annotatedPieces (.name n c) members) =
      (n, c) :: members.flatMap fun m => occurrences m.2 := by
  match members with
  | [] => rfl
  | [(member, code)] => by_cases hv : member = "value" <;> simp [annotatedPieces, hv]
  | a :: b :: rest =>
    simp [annotatedPieces, Piece.occurrences_separated, memberPieces, List.flatMap_map]

mutual

theorem joined_partPieces (n : Naming) (p : CodePart) : joined (n.partPieces p) = n.codePart p := by
  cases p with
  | text s => simp [partPieces, codePart]
  | type t => simp [partPieces, codePart, joined_typePieces]
  | mark type members =>
    simp [partPieces, codePart, joined_annotatedPieces, joined_membersPieces n members]

theorem joined_membersPieces (n : Naming) (members : List (String × List CodePart)) :
    (n.membersPieces members).map (fun m => (m.1, joined m.2)) = n.memberTexts members := by
  match members with
  | [] => rfl
  | (name, code) :: rest =>
    simp [membersPieces, memberTexts, joined_codePieces n code, joined_membersPieces n rest]

theorem joined_codePieces (n : Naming) (code : List CodePart) :
    joined (n.codePieces code) = n.codeParts code := by
  cases code with
  | nil => rfl
  | cons part rest =>
    simp [codePieces, codeParts, joined_partPieces n part, joined_codePieces n rest]

end

mutual

theorem occurrences_partPieces (n : Naming) (p : CodePart) :
    occurrences (n.partPieces p) = p.classes.map (n, ·) := by
  cases p with
  | text s => rfl
  | type t => simp [partPieces, CodePart.classes, occurrences_typePieces]
  | mark type members =>
    simp [partPieces, CodePart.classes, occurrences_annotatedPieces,
      occurrences_membersPieces n members]

theorem occurrences_membersPieces (n : Naming) (members : List (String × List CodePart)) :
    (n.membersPieces members).flatMap (fun m => occurrences m.2) =
      (CodePart.classesOfMembers members).map (n, ·) := by
  match members with
  | [] => rfl
  | (name, code) :: rest =>
    simp [membersPieces, CodePart.classesOfMembers, occurrences_codePieces n code,
      occurrences_membersPieces n rest]

theorem occurrences_codePieces (n : Naming) (code : List CodePart) :
    occurrences (n.codePieces code) = (CodePart.classesOfCode code).map (n, ·) := by
  cases code with
  | nil => rfl
  | cons part rest =>
    simp [codePieces, CodePart.classesOfCode, occurrences_partPieces n part,
      occurrences_codePieces n rest]

end

end Naming

/-! ## The pieces of declarations -/

theorem mem_map_naming {n n' : Naming} {c : ClassName} {classes : List ClassName} :
    (n', c) ∈ classes.map (n, ·) ↔ n' = n ∧ c ∈ classes := by
  simp [eq_comm, and_comm]

theorem occurrences_markPieces (n : Naming) (m : Mark) :
    occurrences (n.markPieces m) = m.classes.map (n, ·) := n.occurrences_partPieces m.toPart

theorem joined_parameterPieces (n : Naming) (p : Parameter) :
    joined (n.parameterPieces p) = n.parameter p := by
  simp [Naming.parameterPieces, Naming.parameter, Naming.markPieces, Naming.mark,
    Piece.joined_flatMap, Naming.joined_partPieces, Naming.joined_typePieces, String.append_assoc]

theorem occurrences_parameterPieces (n : Naming) (p : Parameter) :
    occurrences (n.parameterPieces p) =
      (p.marks.flatMap Mark.classes ++ p.type.classes).map (n, ·) := by
  simp [Naming.parameterPieces, Piece.occurrences_flatMap, occurrences_markPieces,
    Naming.occurrences_typePieces, List.map_flatMap]

def linePieces (depth : Nat) (ps : List Piece) : List Piece := .plain (line depth "") :: ps

@[simp] theorem joined_linePieces (depth : Nat) (ps : List Piece) :
    joined (linePieces depth ps) = line depth (joined ps) := by
  simp [linePieces, line]

@[simp] theorem occurrences_linePieces (depth : Nat) (ps : List Piece) :
    occurrences (linePieces depth ps) = occurrences ps := rfl

def plainLines (lines : List String) : List (List Piece) := lines.map fun s => [.plain s]

@[simp] theorem joined_plainLines (lines : List String) : (plainLines lines).map joined = lines := by
  simp [plainLines, Function.comp_def]

@[simp] theorem occurrences_plainLines (lines : List String) :
    (plainLines lines).flatMap occurrences = [] := by
  simp [plainLines, List.flatMap_map]

def marksPieces (n : Naming) (depth : Nat) (marks : List Mark) : List (List Piece) :=
  marks.map fun m => linePieces depth (n.markPieces m)

theorem joined_marksPieces (n : Naming) (depth : Nat) (marks : List Mark) :
    (marksPieces n depth marks).map joined = markLines n depth marks := by
  simp [marksPieces, markLines, Naming.markPieces, Naming.mark, Naming.joined_partPieces]

theorem occurrences_marksPieces (n : Naming) (depth : Nat) (marks : List Mark) :
    (marksPieces n depth marks).flatMap occurrences = (marks.flatMap Mark.classes).map (n, ·) := by
  simp [marksPieces, List.flatMap_map, occurrences_markPieces, List.map_flatMap]

namespace Field

def linesPieces (n : Naming) (depth : Nat) (f : Field) : List (List Piece) :=
  marksPieces n depth f.marks ++
    [linePieces depth (.plain (modifierText f.modifiers) ::
      (n.typePieces f.type ++ [.plain (" " ++ f.name ++ ";")]))]

theorem joined_linesPieces (n : Naming) (depth : Nat) (f : Field) :
    (f.linesPieces n depth).map joined = f.lines n depth := by
  simp [linesPieces, lines, joined_marksPieces, Naming.joined_typePieces, String.append_assoc]

theorem occurrences_linesPieces (n : Naming) (depth : Nat) (f : Field) :
    (f.linesPieces n depth).flatMap occurrences =
      (f.marks.flatMap Mark.classes ++ f.type.classes).map (n, ·) := by
  rw [linesPieces, List.flatMap_append, occurrences_marksPieces]
  simp [Naming.occurrences_typePieces]

end Field

namespace Method

def headPieces (n : Naming) (owner : String) (m : Method) : List Piece :=
  match m.name with
  | none => [.plain owner]
  | some name =>
    (match m.returns with | some t => n.typePieces t | none => [.plain "void"]) ++
      [.plain " ", .plain name]

def linesPieces (n : Naming) (depth : Nat) (owner : String) (m : Method) : List (List Piece) :=
  plainLines (m.javadoc.toList.flatMap (javadocLines depth)) ++ marksPieces n depth m.marks ++
    linePieces depth (.plain (modifierText m.modifiers) :: (m.headPieces n owner ++
      .plain "(" :: (separated ", " (m.parameters.map n.parameterPieces) ++
        [.plain ") \x7b"]))) ::
    (m.statements.map fun s => linePieces (depth + 1) (n.codePieces s ++ [.plain ";"])) ++
    plainLines [line depth "\x7d"]

def writtenResult (m : Method) : List ClassName :=
  if m.isConstructor then [] else m.returns.toList.flatMap TypeName.classes

def unwrittenResult (m : Method) : List ClassName :=
  if m.isConstructor then m.returns.toList.flatMap TypeName.classes else []

theorem joined_headPieces (n : Naming) (owner : String) (m : Method) :
    joined (m.headPieces n owner) = m.head n owner := by
  cases hname : m.name with
  | none => simp [headPieces, head, hname]
  | some name =>
    cases hreturns : m.returns with
    | none => simp [headPieces, head, hname, hreturns, ← String.append_assoc]
    | some t => simp [headPieces, head, hname, hreturns, Naming.joined_typePieces, String.append_assoc]

theorem joined_linesPieces (n : Naming) (depth : Nat) (owner : String) (m : Method) :
    (m.linesPieces n depth owner).map joined = m.lines n depth owner := by
  simp [linesPieces, lines, joined_marksPieces, joined_headPieces, Piece.joined_separated,
    joined_parameterPieces, Naming.joined_codePieces, Naming.code, Function.comp_def,
    String.append_assoc]

theorem occurrences_headPieces (n : Naming) (owner : String) (m : Method) :
    occurrences (m.headPieces n owner) = m.writtenResult.map (n, ·) := by
  cases hname : m.name with
  | none => simp [headPieces, writtenResult, isConstructor, hname]
  | some name =>
    cases hreturns : m.returns with
    | none => simp [headPieces, writtenResult, isConstructor, hname, hreturns]
    | some t =>
      simp [headPieces, writtenResult, isConstructor, hname, hreturns,
        Naming.occurrences_typePieces]

theorem occurrences_linesPieces (n : Naming) (depth : Nat) (owner : String) (m : Method) :
    (m.linesPieces n depth owner).flatMap occurrences =
      (m.marks.flatMap Mark.classes ++ (m.writtenResult ++
        (m.parameters.flatMap (fun p => p.marks.flatMap Mark.classes ++ p.type.classes) ++
          m.statements.flatMap Code.classes))).map (n, ·) := by
  simp only [linesPieces, List.flatMap_append, List.flatMap_cons, occurrences_plainLines,
    occurrences_marksPieces, occurrences_linePieces, Piece.occurrences_plain,
    Piece.occurrences_append, Piece.occurrences_separated, Piece.occurrences_nil,
    occurrences_headPieces, List.flatMap_map, occurrences_parameterPieces,
    Naming.occurrences_codePieces]
  simp [Code.classes, List.map_flatMap]

/-- The classes of a method are those of its lines and those of a result that is not written. -/
theorem mem_classes_iff (n : Naming) (depth : Nat) (owner : String) {m : Method} {c : ClassName} :
    c ∈ m.classes ↔
      (n, c) ∈ (m.linesPieces n depth owner).flatMap occurrences ∨ c ∈ m.unwrittenResult := by
  have hresult : c ∈ m.returns.toList.flatMap TypeName.classes ↔
      c ∈ m.writtenResult ∨ c ∈ m.unwrittenResult := by
    by_cases hc : m.isConstructor <;> simp [writtenResult, unwrittenResult, hc]
  have hparameters : c ∈ m.parameters.flatMap Parameter.classes ↔
      c ∈ m.parameters.flatMap fun p => p.marks.flatMap Mark.classes ++ p.type.classes := by
    simp only [List.mem_flatMap, Parameter.classes, List.mem_append, or_comm]
  rw [occurrences_linesPieces, mem_map_naming, classes]
  simp only [List.mem_append, hresult, hparameters, true_and]
  simp only [or_assoc, or_left_comm, or_comm]

theorem naming_of_mem {n n' : Naming} {depth : Nat} {owner : String} {m : Method} {c : ClassName}
    (h : (n', c) ∈ (m.linesPieces n depth owner).flatMap occurrences) : n' = n := by
  rw [occurrences_linesPieces] at h
  exact (mem_map_naming.mp h).1

theorem mem_flatMap_classes_iff (n : Naming) (depth : Nat) (owner : String) {c : ClassName}
    (methods : List Method) : c ∈ methods.flatMap classes ↔
      (∃ n', ∃ m ∈ methods, (n', c) ∈ (m.linesPieces n depth owner).flatMap occurrences) ∨
        c ∈ methods.flatMap unwrittenResult := by
  rw [List.mem_flatMap, List.mem_flatMap, exists_comm]
  constructor
  · rintro ⟨m, hm, hc⟩
    rcases (mem_classes_iff n depth owner).mp hc with hc | hc
    · exact .inl ⟨m, n, hm, hc⟩
    · exact .inr ⟨m, hm, hc⟩
  · rintro (⟨m, n', hm, hc⟩ | ⟨m, hm, hc⟩)
    · cases naming_of_mem hc
      exact ⟨m, hm, (mem_classes_iff n depth owner).mpr (.inl hc)⟩
    · exact ⟨m, hm, (mem_classes_iff n depth owner).mpr (.inr hc)⟩

end Method

def separatePieces : List (List (List Piece)) → List (List Piece)
  | [] => []
  | [block] => block
  | block :: rest => block ++ [] :: separatePieces rest

theorem joined_separatePieces (blocks : List (List (List Piece))) :
    (separatePieces blocks).map joined = separate (blocks.map (·.map joined)) := by
  fun_induction separatePieces blocks with
  | case1 => rfl
  | case2 block => rfl
  | case3 block rest hne ih =>
    cases rest with
    | nil => exact absurd rfl hne
    | cons next more => simp [ih, separate]

theorem occurrences_separatePieces (blocks : List (List (List Piece))) :
    (separatePieces blocks).flatMap occurrences =
      blocks.flatMap fun block => block.flatMap occurrences := by
  fun_induction separatePieces blocks with
  | case1 => rfl
  | case2 block => simp
  | case3 block rest hne ih => simp [ih]

namespace Class

mutual

def linesPieces (outside : Naming) (depth : Nat) : Class → List (List Piece)
  | ⟨name, marks, modifiers, fields, methods, classes⟩ =>
    let n := outside.inside name
    let constructors := methods.filter Method.isConstructor
    let others := methods.filter fun m => !m.isConstructor
    -- the annotations of a class are named as from inside it
    marksPieces n depth marks ++
      linePieces depth [.plain (modifierText modifiers ++ "class " ++ name ++ " \x7b")] ::
      separatePieces (fields.map (Field.linesPieces n (depth + 1)) ++
        (constructors ++ others).map (Method.linesPieces n (depth + 1) name) ++
        blocksPieces n (depth + 1) classes) ++
      plainLines [line depth "\x7d"]

def blocksPieces (n : Naming) (depth : Nat) : List Class → List (List (List Piece))
  | [] => []
  | c :: rest => linesPieces n depth c :: blocksPieces n depth rest

end

mutual

def unwrittenResults : Class → List ClassName
  | ⟨_, _, _, _, methods, classes⟩ =>
    methods.flatMap Method.unwrittenResult ++ unwrittenResultsOf classes

def unwrittenResultsOf : List Class → List ClassName
  | [] => []
  | c :: rest => unwrittenResults c ++ unwrittenResultsOf rest

end

mutual

theorem joined_linesPieces (outside : Naming) (depth : Nat) (c : Class) :
    (c.linesPieces outside depth).map joined = c.lines outside depth := by
  cases c with
  | mk name marks modifiers fields methods classes =>
    simp [linesPieces, lines, joined_marksPieces, joined_separatePieces, Field.joined_linesPieces,
      Method.joined_linesPieces, joined_blocksPieces _ _ classes, Function.comp_def]

theorem joined_blocksPieces (n : Naming) (depth : Nat) (classes : List Class) :
    (blocksPieces n depth classes).map (·.map joined) = blocks n depth classes := by
  cases classes with
  | nil => rfl
  | cons c rest =>
    simp [blocksPieces, blocks, joined_linesPieces n depth c, joined_blocksPieces n depth rest]

end

theorem mem_occurrences_mk {outside n : Naming} {depth : Nat} {name : String} {marks : List Mark}
    {modifiers : Modifiers} {fields : List Field} {methods : List Method} {classes : List Class}
    {c : ClassName} :
    (n, c) ∈ (linesPieces outside depth
        ⟨name, marks, modifiers, fields, methods, classes⟩).flatMap occurrences ↔
      (n = outside.inside name ∧
        (c ∈ marks.flatMap Mark.classes ∨ c ∈ fields.flatMap Field.classes)) ∨
      (∃ m ∈ methods,
        (n, c) ∈ (m.linesPieces (outside.inside name) (depth + 1) name).flatMap occurrences) ∨
      ∃ block ∈ blocksPieces (outside.inside name) (depth + 1) classes,
        (n, c) ∈ block.flatMap occurrences := by
  have hfields : (n, c) ∈ (fields.map (Field.linesPieces (outside.inside name) (depth + 1))).flatMap
      (·.flatMap occurrences) ↔ n = outside.inside name ∧ c ∈ fields.flatMap Field.classes := by
    simp only [List.flatMap_map, Field.occurrences_linesPieces, ← List.map_flatMap, mem_map_naming,
      List.mem_flatMap, Field.classes, List.mem_append, or_comm]
  have hmethods : (n, c) ∈ ((methods.filter Method.isConstructor ++
      methods.filter fun m => !m.isConstructor).map
        (Method.linesPieces (outside.inside name) (depth + 1) name)).flatMap
          (·.flatMap occurrences) ↔ ∃ m ∈ methods,
        (n, c) ∈ (m.linesPieces (outside.inside name) (depth + 1) name).flatMap occurrences := by
    rw [List.flatMap_map, List.mem_flatMap]
    simp only [List.mem_append, List.mem_filter, Bool.not_eq_true', ← and_or_left,
      Bool.eq_true_or_eq_false_self, and_true]
  rw [linesPieces]
  simp only [List.flatMap_append, List.flatMap_cons, occurrences_marksPieces,
    occurrences_linePieces, Piece.occurrences_plain, Piece.occurrences_nil, List.nil_append,
    occurrences_separatePieces, occurrences_plainLines, List.append_nil, List.mem_append,
    mem_map_naming, hfields, hmethods, List.mem_flatMap (l := blocksPieces _ _ _), and_or_left,
    or_assoc]

mutual

theorem naming_mem_of_mem {outside n : Naming} {depth : Nat} {c : ClassName} (k : Class)
    (h : (n, c) ∈ (k.linesPieces outside depth).flatMap occurrences) : n ∈ k.namings outside := by
  cases k with
  | mk name marks modifiers fields methods classes =>
    rw [namings]
    rcases mem_occurrences_mk.mp h with ⟨rfl, -⟩ | ⟨m, -, hm⟩ | ⟨block, hblock, hc⟩
    · exact List.mem_cons_of_mem _ List.mem_cons_self
    · rw [Method.naming_of_mem hm]
      exact List.mem_cons_of_mem _ List.mem_cons_self
    · have := naming_mem_of_mem_blocks classes hblock hc
      exact List.mem_cons_of_mem _ (List.mem_cons_of_mem _ this)

theorem naming_mem_of_mem_blocks {n n' : Naming} {depth : Nat} {c : ClassName}
    (classes : List Class) {block : List (List Piece)} (hblock : block ∈ blocksPieces n depth classes)
    (h : (n', c) ∈ block.flatMap occurrences) : n' ∈ namingsOf n classes := by
  cases classes with
  | nil => cases hblock
  | cons k rest =>
    rw [namingsOf]
    rcases List.mem_cons.mp hblock with rfl | hblock
    · exact List.mem_append_left _ (naming_mem_of_mem k h)
    · exact List.mem_append_right _ (naming_mem_of_mem_blocks rest hblock h)

end

mutual

/-- The collector meets the classes of the lines and those of results that are not written. -/
theorem mem_mentions_iff (outside : Naming) (depth : Nat) {c : ClassName} (k : Class) :
    c ∈ k.mentions ↔ (∃ n, (n, c) ∈ (k.linesPieces outside depth).flatMap occurrences) ∨
      c ∈ k.unwrittenResults := by
  cases k with
  | mk name marks modifiers fields methods classes =>
    have hmethods := Method.mem_flatMap_classes_iff (outside.inside name) (depth + 1) name
      (c := c) methods
    have hclasses := mem_mentionsOf_iff (outside.inside name) (depth + 1) (c := c) classes
    rw [mentions, unwrittenResults]
    simp only [mem_occurrences_mk, List.mem_append, hmethods, hclasses, exists_or, exists_eq_left]
    simp only [or_assoc, or_left_comm, or_comm]

theorem mem_mentionsOf_iff (n : Naming) (depth : Nat) {c : ClassName} (classes : List Class) :
    c ∈ mentionsOf classes ↔
      (∃ n', ∃ block ∈ blocksPieces n depth classes, (n', c) ∈ block.flatMap occurrences) ∨
        c ∈ unwrittenResultsOf classes := by
  cases classes with
  | nil => simp [mentionsOf, blocksPieces, unwrittenResultsOf]
  | cons k rest =>
    have hk := mem_mentions_iff n depth (c := c) k
    have hrest := mem_mentionsOf_iff n depth (c := c) rest
    rw [mentionsOf, unwrittenResultsOf, blocksPieces]
    simp only [List.mem_append, hk, hrest, List.mem_cons, exists_eq_or_imp, exists_or]
    simp only [or_assoc, or_left_comm, or_comm]

end

end Class

/-! ## The imports of a file -/

namespace File

def linesPieces (f : File) : List (List Piece) :=
  plainLines (commentLines f.comment ++ packageLines f.package ++ importLines f.importedNames) ++
    f.content.linesPieces (.ofFile f) 0

theorem joined_linesPieces (f : File) : f.linesPieces.map joined = f.lines := by
  rw [linesPieces, List.map_append, joined_plainLines, Class.joined_linesPieces, lines]

/-- The class names in the lines of the file, each with the naming of its place. -/
def occurrences (f : File) : List (Naming × ClassName) := f.linesPieces.flatMap Piece.occurrences

/-- The class stands in a line of the file, or in a result type that a constructor was given. -/
def References (f : File) (c : ClassName) : Prop :=
  (∃ n, (n, c) ∈ f.occurrences) ∨ c ∈ f.content.unwrittenResults

variable {f : File} {n : Naming} {c : ClassName}

theorem mem_occurrences_iff :
    (n, c) ∈ f.occurrences ↔
      (n, c) ∈ (f.content.linesPieces (.ofFile f) 0).flatMap Piece.occurrences := by
  rw [occurrences, linesPieces, List.flatMap_append, occurrences_plainLines, List.nil_append]

/-- The collector of imports meets exactly the classes that the file refers to. -/
theorem references_iff_mem_mentions : f.References c ↔ c ∈ f.content.mentions := by
  rw [References, Class.mem_mentions_iff (.ofFile f) 0]
  simp only [mem_occurrences_iff]

theorem at_of_mem_occurrences (h : (n, c) ∈ f.occurrences) : n.At f :=
  at_of_mem_namings (Class.naming_mem_of_mem f.content (mem_occurrences_iff.mp h))

theorem mem_values_imports_iff :
    c ∈ Dict.values f.imports ↔ ∃ d, f.References d ∧ f.Imports d ∧ c = d.topLevel := by
  constructor
  · intro h
    obtain ⟨⟨key, d⟩, he, rfl⟩ := List.mem_map.mp h
    obtain ⟨t, ht, hpair⟩ := List.mem_map.mp (Dict.mem_of_mem_ofList he)
    obtain ⟨hm, himported⟩ := List.mem_filter.mp ht
    obtain ⟨e, hmention, rfl⟩ := List.mem_map.mp hm
    cases hpair
    exact ⟨e, references_iff_mem_mentions.mpr hmention, himported, rfl⟩
  · rintro ⟨d, hd, himported, rfl⟩
    rcases get?_imports (references_iff_mem_mentions.mp hd) with ⟨-, hget⟩ | ⟨hnot, -⟩
    · exact List.mem_map_of_mem (Dict.mem_of_get?_eq_some hget)
    · exact absurd himported hnot

theorem topLevel_mem_imports_iff (hc : f.References c) :
    c.topLevel ∈ Dict.values f.imports ↔ f.Imports c := by
  rw [mem_values_imports_iff]
  constructor
  · rintro ⟨d, -, hd, heq⟩
    rw [Imports, heq]
    exact hd
  · exact fun h => ⟨c, hc, h, rfl⟩

theorem mem_importedNames_iff {name : String} :
    name ∈ f.importedNames ↔ ∃ d ∈ Dict.values f.imports, name = d.canonical := by
  rw [importedNames]
  constructor
  · intro h
    obtain ⟨e, he, rfl⟩ := List.mem_map.mp h
    obtain ⟨d, hd, rfl⟩ := List.mem_map.mp (Dict.mem_of_mem_ofList he)
    exact ⟨d, hd, rfl⟩
  · rintro ⟨d, hd, rfl⟩
    exact Dict.mem_keys_ofList (List.mem_map_of_mem (f := fun c => (c.canonical, ())) hd)

theorem imports_iff (hp : c.package ≠ "") (hf : c.package ≠ f.package)
    (hl : c.package ≠ implicitPackage) :
    f.Imports c ↔ (∀ d, f.References d → d.outer = c.outer → d.topLevel = c.topLevel) ∧
      c.outer ∉ f.content.declared := by
  rw [Imports, isImported_iff]
  simp only [List.forall_mem_map, references_iff_mem_mentions]
  exact ⟨fun h => ⟨h.1, h.2.1⟩, fun h => ⟨h.1, h.2, hp, hf, hl⟩⟩

theorem not_owns_of_topLevel_ne (h : c.topLevel ≠ f.className) : ¬ f.Owns c := by
  rintro ⟨hp, ho⟩
  refine h ?_
  rw [ClassName.topLevel, className, ClassName.topLevelOf, hp, ho]

/-- Outside the file's own class, the imports decide how an occurrence of a class that is not
implicit is written. -/
theorem className_of_occurrence (h : (n, c) ∈ f.occurrences) (hown : ¬ f.Owns c)
    (himplicit : ¬ f.Implicit c) :
    n.className c = if c.topLevel ∈ Dict.values f.imports then c.dotted else c.canonical := by
  have hc : f.References c := .inl ⟨n, h⟩
  have hw := (at_of_mem_occurrences h).written (references_iff_mem_mentions.mp hc)
  rcases hw.of_not_owns hown with ⟨hs, htext⟩ | ⟨hs, htext⟩
  · rw [htext, if_pos ((topLevel_mem_imports_iff hc).mpr (hs.resolve_right himplicit))]
  · rw [htext, if_neg fun hm => hs (.inl ((topLevel_mem_imports_iff hc).mp hm))]

/-- The lines of a file are its pieces joined. A referenced class of another package than the file's
own and `java.lang` is imported when nothing else has its outer name, among the referenced top-level
classes and the classes that the file declares, and its occurrences follow. Every occurrence of a
class whose outer name is declared is canonical, unless it belongs to the file's own top-level class.
Below the comment and the package stand the import lines, and the file has no others. They name the
imported classes, each once and ascending by these names. -/
theorem names_follow_imports (f : File) :
    f.linesPieces.map joined = f.lines ∧
    (∀ c, f.References c → c.package ≠ "" →
      (c.package ≠ f.package → c.package ≠ implicitPackage →
        (c.topLevel ∈ Dict.values f.imports ↔
          (∀ d, f.References d → d.outer = c.outer → d.topLevel = c.topLevel) ∧
            c.outer ∉ f.content.declared) ∧
        ∀ n, (n, c) ∈ f.occurrences →
          n.className c = if c.topLevel ∈ Dict.values f.imports then c.dotted else c.canonical) ∧
      (c.topLevel ≠ f.className → c.outer ∈ f.content.declared →
        ∀ n, (n, c) ∈ f.occurrences → n.className c = c.canonical)) ∧
    (f.lines = commentLines f.comment ++ packageLines f.package ++
      (f.importedNames.map (fun name => "import " ++ name ++ ";") ++
        if f.importedNames = [] then [] else [""]) ++ f.content.lines (.ofFile f) 0) ∧
    f.lines.filter isImportLine = f.importedNames.map (fun name => "import " ++ name ++ ";") ∧
    (∀ name, name ∈ f.importedNames ↔
      ∃ c, f.References c ∧ c.topLevel ∈ Dict.values f.imports ∧ name = c.topLevel.canonical) ∧
    f.importedNames.Pairwise (· < ·) := by
  refine ⟨f.joined_linesPieces, ?_, ?_, f.filter_lines, ?_, Dict.sorted_ofList _⟩
  · intro c hc hp
    refine ⟨fun hf hl => ⟨?_, fun n hn => ?_⟩, fun htop hdeclared n hn => ?_⟩
    · rw [topLevel_mem_imports_iff hc, imports_iff hp hf hl]
    · have hown : ¬ f.Owns c := fun h => hf h.1
      have himplicit : ¬ f.Implicit c := fun h => h.1.elim hf hl
      exact className_of_occurrence hn hown himplicit
    · have himplicit : ¬ f.Implicit c := fun h => h.2 hdeclared
      have himports : ¬ f.Imports c := fun h => not_mem_declared_of_short (.inl h) hdeclared
      rw [className_of_occurrence hn (not_owns_of_topLevel_ne htop) himplicit,
        if_neg fun h => himports ((topLevel_mem_imports_iff hc).mp h)]
  · rw [lines, importLines_eq]
  · intro name
    rw [mem_importedNames_iff]
    constructor
    · rintro ⟨d, hd, rfl⟩
      obtain ⟨c, hc, himports, rfl⟩ := mem_values_imports_iff.mp hd
      exact ⟨c, hc, hd, rfl⟩
    · rintro ⟨c, -, hd, rfl⟩
      exact ⟨c.topLevel, hd, rfl⟩

end File

def shadowingFile : File where
  package := "app"
  comment := none
  content := ⟨"AppModule",
    [⟨⟨"x", "Marked", []⟩, [("value", [.mark ⟨"y", "Kept", []⟩
      [("type", [.type (.class ⟨"java.util", "Map", ["Entry"]⟩), .text ".class"])]])]⟩],
    .empty,
    [⟨.parameterized ⟨"java.util", "List", []⟩
      [.bounded .super (.array (.class ⟨"lib", "Builder", []⟩))], "builders", .empty, []⟩],
    [],
    [⟨"Builder", [], .empty, [⟨.class ⟨"app", "Builder", []⟩, "other", .empty, []⟩], [], []⟩]⟩

theorem builders_canonical_beside_builder :
    shadowingFile.lines.filter isImportLine =
      ["import java.util.List;", "import java.util.Map;", "import x.Marked;", "import y.Kept;"] ∧
    (∀ n, (n, ⟨"lib", "Builder", []⟩) ∈ shadowingFile.occurrences →
      n.className ⟨"lib", "Builder", []⟩ = "lib.Builder") ∧
    (∀ n, (n, ⟨"app", "Builder", []⟩) ∈ shadowingFile.occurrences →
      n.className ⟨"app", "Builder", []⟩ = "app.Builder") ∧
    ∀ n, (n, ⟨"java.util", "Map", ["Entry"]⟩) ∈ shadowingFile.occurrences →
      n.className ⟨"java.util", "Map", ["Entry"]⟩ = "Map.Entry" := by
  obtain ⟨-, hnames, -, hlines, -⟩ := shadowingFile.names_follow_imports
  have hsorted : shadowingFile.importedNames =
      ["java.util.List", "java.util.Map", "x.Marked", "y.Kept"] := by decide +kernel
  have hlib : shadowingFile.References ⟨"lib", "Builder", []⟩ :=
    File.references_iff_mem_mentions.mpr (by decide +kernel)
  have happ : shadowingFile.References ⟨"app", "Builder", []⟩ :=
    File.references_iff_mem_mentions.mpr (by decide +kernel)
  have hentry : shadowingFile.References ⟨"java.util", "Map", ["Entry"]⟩ :=
    File.references_iff_mem_mentions.mpr (by decide +kernel)
  have himported : ClassName.topLevel ⟨"java.util", "Map", ["Entry"]⟩ ∈
      Dict.values shadowingFile.imports := by decide +kernel
  refine ⟨by rw [hlines, hsorted]; rfl, ?_, ?_, ?_⟩
  · exact (hnames _ hlib (by decide)).2 (by decide) (by decide +kernel)
  · exact (hnames _ happ (by decide)).2 (by decide) (by decide +kernel)
  · intro n hn
    rw [((hnames _ hentry (by decide)).1 (by decide) (by decide)).2 n hn, if_pos himported]
    decide

end Provisioning.Source
