import Provisioning.Source.Layout

/-! # The import lines of a file

Which lines of a file are imports. A comment, a package and a class are written in
lines that begin in another way, whatever texts they hold, so the lines that begin
with the keyword are those of the imported names.
-/

namespace Provisioning.Source

/-- The line begins with the keyword of an import. -/
def isImportLine (s : String) : Bool := "import ".toList.isPrefixOf s.toList

theorem isImportLine_import (name : String) : isImportLine ("import " ++ name ++ ";") := by
  simp [isImportLine]

theorem head?_of_isImportLine {s : String} (h : isImportLine s) : s.toList.head? = some 'i' := by
  obtain ⟨rest, hrest⟩ := List.isPrefixOf_iff_prefix.mp h
  rw [← hrest]
  rfl

theorem not_isImportLine_blank : ¬ isImportLine "" := by decide

theorem not_isImportLine_line_succ (depth : Nat) (s : String) :
    ¬ isImportLine (line (depth + 1) s) := by
  refine mt head?_of_isImportLine ?_
  simp [line, Nat.mul_succ, List.replicate_succ]

theorem not_isImportLine_line {s : String} (depth : Nat) (h : s.toList.head? ≠ some 'i') :
    ¬ isImportLine (line depth s) := by
  cases depth with
  | zero => exact mt head?_of_isImportLine (by simpa [line] using h)
  | succ depth => exact not_isImportLine_line_succ depth s

/-! ## The lines of a class -/

theorem head?_annotated (name : String) (members : List (String × String)) :
    (Naming.annotated name members).toList.head? = some '@' := by
  fun_cases Naming.annotated name members <;> simp [*]

theorem filter_markLines (n : Naming) (depth : Nat) (marks : List Mark) :
    (markLines n depth marks).filter isImportLine = [] := by
  refine List.filter_eq_nil_iff.mpr fun s hs => ?_
  obtain ⟨m, -, rfl⟩ := List.mem_map.mp hs
  refine not_isImportLine_line depth ?_
  rw [Naming.mark, Mark.toPart, Naming.codePart, head?_annotated]
  decide

theorem filter_javadocLines (depth : Nat) (text : String) :
    (javadocLines (depth + 1) text).filter isImportLine = [] := by
  simp [javadocLines, not_isImportLine_line_succ]

theorem filter_fieldLines (n : Naming) (depth : Nat) (f : Field) :
    (f.lines n (depth + 1)).filter isImportLine = [] := by
  simp [Field.lines, filter_markLines, not_isImportLine_line_succ]

theorem filter_methodLines (n : Naming) (depth : Nat) (owner : String) (m : Method) :
    (m.lines n (depth + 1) owner).filter isImportLine = [] := by
  simp only [Method.lines, List.filter_append, List.filter_flatMap, filter_javadocLines,
    filter_markLines]
  simp [not_isImportLine_line_succ]

theorem filter_separate (blocks : List (List String)) :
    (separate blocks).filter isImportLine = blocks.flatMap (·.filter isImportLine) := by
  fun_induction separate blocks with
  | case1 => rfl
  | case2 block => simp
  | case3 block rest hne ih => simp [ih, not_isImportLine_blank]

theorem head?_modifierText (modifiers : Modifiers) (s : String) :
    (modifierText modifiers ++ "class " ++ s).toList.head? ≠ some 'i' := by
  rw [modifierText]
  cases modifiers.toList with
  | nil => simp
  | cons m rest => cases m <;> simp [Modifier.keyword]

mutual

theorem filter_classLines (n : Naming) (depth : Nat) (k : Class) :
    (k.lines n depth).filter isImportLine = [] := by
  cases k with
  | mk name marks modifiers fields methods classes =>
    -- the annotations, the head and the last line are all that can stand at the left margin
    have hhead := not_isImportLine_line depth (head?_modifierText modifiers (name ++ " \x7b"))
    have hend : ¬ isImportLine (line depth "\x7d") := not_isImportLine_line depth (by decide)
    have hblocks := filter_blocks (n.inside name) (depth + 1) classes
    rw [← String.append_assoc] at hhead
    simp only [Class.lines, List.filter_append, filter_markLines, List.filter_cons_of_neg hhead,
      filter_separate, List.flatMap_append, List.flatMap_map, filter_fieldLines,
      filter_methodLines, hblocks, List.filter_cons_of_neg hend]
    simp

theorem filter_blocks (n : Naming) (depth : Nat) (classes : List Class) :
    (Class.blocks n depth classes).flatMap (·.filter isImportLine) = [] := by
  cases classes with
  | nil => rfl
  | cons k rest =>
    rw [Class.blocks, List.flatMap_cons, filter_classLines n depth k, filter_blocks n depth rest]
    rfl

end

/-! ## The lines of a file -/

namespace File

theorem filter_commentLines (comment : Option String) :
    (commentLines comment).filter isImportLine = [] := by
  have hline : ∀ s, ¬ isImportLine ("// " ++ s) := fun s => mt head?_of_isImportLine (by simp)
  cases comment with
  | none => rfl
  | some text => simp [commentLines, hline, not_isImportLine_blank]

theorem filter_packageLines (package : String) :
    (packageLines package).filter isImportLine = [] := by
  have hpackage : ¬ isImportLine ("package " ++ package ++ ";") :=
    mt head?_of_isImportLine (by simp)
  rw [packageLines]
  split
  · rfl
  · rw [List.filter_cons_of_neg hpackage, List.filter_cons_of_neg not_isImportLine_blank]
    rfl

theorem importLines_eq (names : List String) :
    importLines names = names.map (fun name => "import " ++ name ++ ";") ++
      if names = [] then [] else [""] := by
  cases names <;> rfl

theorem filter_importLines (names : List String) :
    (importLines names).filter isImportLine = names.map fun name => "import " ++ name ++ ";" := by
  have himports : ∀ s ∈ names.map fun name => "import " ++ name ++ ";", isImportLine s := by
    intro s hs
    obtain ⟨name, -, rfl⟩ := List.mem_map.mp hs
    exact isImportLine_import name
  rw [importLines_eq, List.filter_append, List.filter_eq_self.mpr himports]
  split <;> simp [not_isImportLine_blank]

/-- The imported names stand in the import lines, and in no others. -/
theorem filter_lines (f : File) :
    f.lines.filter isImportLine = f.importedNames.map fun name => "import " ++ name ++ ";" := by
  simp only [lines, List.filter_append, filter_commentLines, filter_packageLines,
    filter_importLines, filter_classLines, List.nil_append, List.append_nil]

end File

end Provisioning.Source
