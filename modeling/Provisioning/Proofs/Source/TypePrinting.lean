import Provisioning.Proofs.Source.TypeSpelling
import Provisioning.Proofs.Source.WrittenNames

/-! # Types are read back from generated code

Where a file writes its classes by their canonical names, a type in generated code
is one of the spellings of that type, so it is read back. The classes are found
again because the capitals tell where the package ends.
-/

namespace Provisioning.Source

open Text (Blank join)

namespace ClassName

def isWordChar (c : Char) : Bool := Text.isAlphanumeric c || c = '_' || c = '$'

def IsWord (s : String) : Prop := s ≠ "" ∧ s.toList.all isWordChar = true

instance (s : String) : Decidable (IsWord s) := inferInstanceAs (Decidable (_ ∧ _))

theorem IsWord.isSegment {s : String} (h : IsWord s) : IsSegment s := by
  refine ⟨h.1, fun hpoint => ?_⟩
  have hno : isWordChar '.' = false := by decide
  rw [List.all_eq_true.mp h.2 '.' hpoint] at hno
  cases hno

/-- A class as its name would be guessed: words in lower case for the package, if there is one, then
the simple names, the first one in upper case unless it stands alone. -/
structure Normal (c : ClassName) : Prop where
  package : ∃ segments, c.package = join "." segments ∧
    ∀ s ∈ segments, IsWord s ∧ startsUpper s.toList = false
  words : ∀ s ∈ c.simpleNames, IsWord s
  outer : startsUpper c.outer.toList = true ∨ c.inner = []
  not_keyword : c.canonical ∉ TypeName.keywords

namespace Normal

variable {c : ClassName} (h : c.Normal)

include h

theorem exists_words : ∃ segments, c.package = join "." segments ∧
    (∀ s ∈ segments, IsWord s ∧ startsUpper s.toList = false) ∧
    c.canonical = join "." (segments ++ c.simpleNames) := by
  obtain ⟨segments, hpackage, hs⟩ := h.package
  have hcanonical := canonical_join (fun s hm => (hs s hm).1.1) c.outer c.inner
  rw [← hpackage] at hcanonical
  exact ⟨segments, hpackage, hs, hcanonical⟩

theorem guess_canonical : guess c.canonical = c := by
  obtain ⟨segments, hpackage, hs, hcanonical⟩ := h.exists_words
  rw [hcanonical, simpleNames, guess_join (fun s hm => ⟨(hs s hm).1.isSegment, (hs s hm).2⟩)
    (fun s hm => (h.words s hm).isSegment) h.outer, ← hpackage]

theorem isName : TypeName.IsName c.canonical.toList := by
  obtain ⟨segments, -, hs, hcanonical⟩ := h.exists_words
  have hwords : ∀ s ∈ segments ++ c.simpleNames, IsWord s := by
    intro s hm
    rcases List.mem_append.mp hm with hm | hm
    · exact (hs s hm).1
    · exact h.words s hm
  refine ⟨fun hnil => ?_, fun d hd => ?_, ?_⟩
  · have houter : c.outer ∈ segments ++ c.simpleNames :=
      List.mem_append_right _ List.mem_cons_self
    obtain ⟨d, hd⟩ := List.exists_mem_of_ne_nil _
      (fun he => (hwords _ houter).1 (String.toList_eq_nil_iff.mp he))
    have hpoint : d ≠ '.' := fun he => (hwords _ houter).isSegment.2 (he ▸ hd)
    have hmem := (Text.mem_join_iff hpoint _).mpr ⟨_, houter, hd⟩
    rw [← hcanonical, hnil] at hmem
    cases hmem
  · by_cases hpoint : d = '.'
    · rw [hpoint]
      decide
    · rw [hcanonical, Text.mem_join_iff hpoint] at hd
      obtain ⟨s, hm, hds⟩ := hd
      have hword := List.all_eq_true.mp (hwords s hm).2 d hds
      exact (Bool.or_eq_true _ _).mpr (.inl hword)
  · rw [String.ofList_toList]
    exact h.not_keyword

end Normal

end ClassName

namespace TypeName

/-- A type whose text says all there is to it: keywords for primitive types and `void`, at least one
type argument where there are any, and no array of bounded wildcards. -/
inductive Normal : TypeName → Prop
  | primitive {keyword : String} (h : keyword ∈ keywords) : Normal (.primitive keyword)
  | class {name : ClassName} (h : name.Normal) : Normal (.class name)
  | parameterized {raw : ClassName} {arguments : List TypeName} (h : raw.Normal)
      (hne : arguments ≠ []) (hall : ∀ t ∈ arguments, Normal t) :
      Normal (.parameterized raw arguments)
  | array {element : TypeName} (h : Normal element) (hb : ¬ element.IsBounded) :
      Normal (.array element)
  | wildcard : Normal .wildcard
  | bounded {bound : Bound} {type : TypeName} (h : Normal type) : Normal (.bounded bound type)

theorem mem_classesOf {ts : List TypeName} {t : TypeName} {c : ClassName} (ht : t ∈ ts)
    (hc : c ∈ t.classes) : c ∈ classesOf ts := by
  induction ts with
  | nil => cases ht
  | cons u rest ih =>
    rw [classesOf, List.mem_append]
    rcases List.mem_cons.mp ht with rfl | ht
    · exact .inl hc
    · exact .inr (ih ht)

section Printing

variable {n : Naming}

theorem toList_join_typeNames (t : TypeName) (ts : List TypeName) :
    (join ", " (n.typeNames (t :: ts))).toList =
      (n.typeName t).toList ++ ts.flatMap fun u => ',' :: ' ' :: (n.typeName u).toList := by
  induction ts generalizing t with
  | nil => simp [Naming.typeNames, join]
  | cons u rest ih =>
    have hjoin : join ", " (n.typeNames (t :: u :: rest)) =
        n.typeName t ++ ", " ++ join ", " (n.typeNames (u :: rest)) := rfl
    rw [hjoin, String.toList_append, String.toList_append, ih]
    simp

theorem spellsMore_typeNames {ts : List TypeName}
    (h : ∀ t ∈ ts, ∀ {before}, Blank before → Spells (before ++ (n.typeName t).toList) t) :
    SpellsMore (ts.flatMap fun t => ',' :: ' ' :: (n.typeName t).toList) ts := by
  induction ts with
  | nil => exact .nil
  | cons t rest ih =>
    obtain ⟨ht, hrest⟩ := List.forall_mem_cons.mp h
    exact .cons Text.blank_nil (ht Text.blank_space) (ih hrest)

/-- What is written for a type spells it. White space may stand before it, as it does before a bound
and before each argument but the first one. -/
theorem Normal.spells {t : TypeName} (h : t.Normal)
    (hc : ∀ c ∈ t.classes, n.className c = c.canonical) {before : List Char} (hb : Blank before) :
    Spells (before ++ (n.typeName t).toList) t := by
  induction h generalizing before with
  | primitive h =>
    rw [Naming.typeName]
    exact .primitive hb h
  | «class» h =>
    have hs := Spells.class hb h.isName
    rw [String.ofList_toList, h.guess_canonical] at hs
    rw [Naming.typeName, hc _ (by simp [classes])]
    exact hs
  | @parameterized raw arguments h hne hall ih =>
    rw [classes, List.forall_mem_cons] at hc
    obtain ⟨t, ts, rfl⟩ := List.exists_cons_of_ne_nil hne
    have hargs : ∀ u ∈ t :: ts, ∀ {before}, Blank before →
        Spells (before ++ (n.typeName u).toList) u :=
      fun u hu _ hb => ih u hu (fun c hm => hc.2 c (mem_classesOf hu hm)) hb
    obtain ⟨hfirst, hrest⟩ := List.forall_mem_cons.mp hargs
    have hs := Spells.parameterized hb h.isName Text.blank_nil (hfirst Text.blank_nil)
      (spellsMore_typeNames hrest) Text.blank_nil
    rw [String.ofList_toList, h.guess_canonical] at hs
    rw [Naming.typeName, hc.1]
    simpa [String.toList_append, toList_join_typeNames] using hs
  | array h hbounded ih =>
    have hs := Spells.array (ih hc hb) hbounded Text.blank_nil Text.blank_nil
    rw [Naming.typeName, String.toList_append, ← List.append_assoc]
    exact hs
  | wildcard =>
    rw [Naming.typeName]
    exact .wildcard hb
  | @bounded bound type h ih =>
    have hs := Spells.bounded (b := bound) hb Text.blank_space (by decide)
      (ih hc Text.blank_space)
    rw [Naming.typeName]
    simpa [String.toList_append] using hs

end Printing

end TypeName

/-- A class that needs its canonical name in the file: it is not imported, and it is neither from the
package of the file nor from the one that needs no imports. -/
structure File.Foreign (f : File) (c : ClassName) : Prop where
  not_imported : c.topLevel ∉ Dict.values f.imports
  not_own : c.package ≠ f.package
  not_implicit : c.package ≠ implicitPackage

theorem File.eq_topLevel_of_get?_imports {f : File} {name : String} {d : ClassName}
    (h : Dict.get? f.imports name = some d) : d ∈ Dict.values f.imports ∧ d = ⟨d.package, name, []⟩ := by
  have hmem := Dict.mem_of_get?_eq_some h
  refine ⟨List.mem_map.mpr ⟨_, hmem, rfl⟩, ?_⟩
  obtain ⟨e, he, hpair⟩ := List.mem_map.mp (Dict.mem_of_mem_ofList hmem)
  obtain ⟨rfl, rfl⟩ := Prod.mk.injEq _ _ _ _ ▸ hpair
  obtain ⟨c, -, rfl⟩ := List.mem_map.mp (List.mem_filter.mp he).1
  rfl

theorem Naming.At.className_of_foreign {f : File} {n : Naming} {c : ClassName} (hn : n.At f)
    (h : f.Foreign c) : n.className c = c.canonical := by
  have hpackage : n.package = f.package := congrArg Naming.package hn.eq
  have htable : n.imports = f.imports := congrArg Naming.imports hn.eq
  have hshort : n.isShort c = false := by
    rw [isShort, htable, hpackage]
    cases hget : Dict.get? f.imports c.outer with
    | none => simp [h.not_own, h.not_implicit]
    | some d =>
      obtain ⟨hvalue, hd⟩ := File.eq_topLevel_of_get?_imports hget
      refine decide_eq_false fun he => h.not_imported ?_
      rw [he] at hd
      rw [hd] at hvalue
      exact hvalue
  rw [className, hpackage, if_neg h.not_own, if_neg (Nat.lt_irrefl 0), hshort]
  rfl

/-- A type that is written anywhere in a file is read back, if its classes are written by their
canonical names there. -/
theorem TypeName.parse_typeName {f : File} {n : Naming} (hn : n ∈ f.namings) {t : TypeName}
    (ht : t.Normal) (hc : ∀ c ∈ t.classes, f.Foreign c) : parse (n.typeName t) = t := by
  have hclasses : ∀ c ∈ t.classes, n.className c = c.canonical :=
    fun c hm => (File.at_of_mem_namings hn).className_of_foreign (hc c hm)
  exact (ht.spells hclasses Text.blank_nil).parse_eq Text.blank_nil (by simp)

def mapsOfArrays : TypeName :=
  .array (.array (.parameterized ⟨"java.util", "Map", []⟩
    [.bounded .super (.array (.class ⟨"a.b", "Outer", ["Inner"]⟩)),
      .bounded .extends (.array (.primitive "int")), .parameterized ⟨"", "Single_1", []⟩ [.wildcard]]))

def mapsFile : File :=
  ⟨"app", ⟨"Map", [], .empty, [⟨mapsOfArrays, "maps", .empty, []⟩], [],
    [⟨"Outer", [], .empty, [], [], []⟩]⟩, none⟩

theorem mapsOfArrays_read_back :
    let n := (Naming.ofFile mapsFile).inside "Map"
    n ∈ mapsFile.namings ∧
      n.typeName mapsOfArrays =
        "java.util.Map<? super a.b.Outer.Inner[], ? extends int[], Single_1<?>>[][]" ∧
      TypeName.parse (n.typeName mapsOfArrays) = mapsOfArrays := by
  intro n
  have hn : n ∈ mapsFile.namings := List.mem_cons_of_mem _ List.mem_cons_self
  have hmap : (⟨"java.util", "Map", []⟩ : ClassName).Normal :=
    ⟨⟨["java", "util"], rfl, by decide⟩, by decide, .inr rfl, by decide⟩
  have hinner : (⟨"a.b", "Outer", ["Inner"]⟩ : ClassName).Normal :=
    ⟨⟨["a", "b"], rfl, by decide⟩, by decide, .inl (by decide), by decide⟩
  have hsingle : (⟨"", "Single_1", []⟩ : ClassName).Normal :=
    ⟨⟨[], rfl, by decide⟩, by decide, .inr rfl, by decide⟩
  have hnormal : mapsOfArrays.Normal := by
    refine .array (.array (.parameterized hmap (List.cons_ne_nil _ _) ?_) nofun) nofun
    simp only [List.forall_mem_cons, List.not_mem_nil, false_imp_iff, implies_true, and_true]
    refine ⟨.bounded (.array (.class hinner) nofun), .bounded (.array (.primitive ?_) nofun),
      .parameterized hsingle (List.cons_ne_nil _ _) ?_⟩
    · decide
    · simpa using .wildcard
  have himports : mapsFile.imports = [] := by decide +kernel
  have hpackages : ∀ c ∈ mapsOfArrays.classes,
      c.package ≠ mapsFile.package ∧ c.package ≠ implicitPackage := by
    decide +kernel
  have hforeign : ∀ c ∈ mapsOfArrays.classes, mapsFile.Foreign c := fun c hc =>
    ⟨by simp [himports, Dict.values], (hpackages c hc).1, (hpackages c hc).2⟩
  exact ⟨hn, by decide +kernel, TypeName.parse_typeName hn hnormal hforeign⟩

end Provisioning.Source
