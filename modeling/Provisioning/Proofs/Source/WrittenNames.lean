import Provisioning.Proofs.Source.Segments
import Provisioning.Source.Layout

/-! # How class names are written

The rules by which a class name is written at a place of a file, apart from the
tables that the writer keeps for them. Outside the file's own class a name is
short or canonical, and two regular names are then written alike only when both
need no import: one from the package of the file, the other from `java.lang`.
-/

namespace Provisioning.Source

open Text (join)

namespace Class

mutual

/-- The namings that the lines of a class are written with: before it, for its annotations, and
inside it. -/
def namings (outside : Naming) : Class → List Naming
  | ⟨name, _, _, _, _, classes⟩ =>
    outside :: outside.inside name :: namingsOf (outside.inside name) classes

def namingsOf (n : Naming) : List Class → List Naming
  | [] => []
  | c :: rest => namings n c ++ namingsOf n rest

end

end Class

namespace File

def namings (f : File) : List Naming := f.content.namings (.ofFile f)

def Owns (f : File) (c : ClassName) : Prop := c.package = f.package ∧ c.outer = f.content.name

def Imports (f : File) (c : ClassName) : Prop :=
  isImported f.package f.content.declared (f.content.mentions.map ClassName.topLevel) c.topLevel = true

def Implicit (f : File) (c : ClassName) : Prop :=
  (c.package = f.package ∨ c.package = implicitPackage) ∧ c.outer ∉ f.content.declared

end File

/-- The rules for the text of a class name at a place of a file. -/
inductive Written (f : File) (n : Naming) (c : ClassName) : String → Prop
  | before (h : f.Owns c) (he : n.enclosing = []) : Written f n c c.canonical
  | within (h : f.Owns c) (he : n.enclosing ≠ []) : Written f n c
    (join "." (c.simpleNames.drop (min (commonStart c.simpleNames n.enclosing) c.inner.length)))
  | short (h : ¬ f.Owns c) (hs : f.Imports c ∨ f.Implicit c) : Written f n c c.dotted
  | full (h : ¬ f.Owns c) (hs : ¬ (f.Imports c ∨ f.Implicit c)) : Written f n c c.canonical

theorem Written.unique {f : File} {n : Naming} {c : ClassName} {s t : String}
    (hs : Written f n c s) (ht : Written f n c t) : s = t := by
  cases hs with
  | before h he =>
    cases ht with
    | before => rfl
    | within _ hne => exact absurd he hne
    | short hn => exact absurd h hn
    | full hn => exact absurd h hn
  | within h hne =>
    cases ht with
    | before _ he => exact absurd he hne
    | within => rfl
    | short hn => exact absurd h hn
    | full hn => exact absurd h hn
  | short hn hs =>
    cases ht with
    | before h => exact absurd h hn
    | within h => exact absurd h hn
    | short => rfl
    | full _ hf => exact absurd hs hf
  | full hn hf =>
    cases ht with
    | before h => exact absurd h hn
    | within h => exact absurd h hn
    | short _ hs => exact absurd hs hf
    | full => rfl

theorem Written.of_not_owns {f : File} {n : Naming} {c : ClassName} {text : String}
    (hw : Written f n c text) (h : ¬ f.Owns c) :
    ((f.Imports c ∨ f.Implicit c) ∧ text = c.dotted) ∨
      (¬ (f.Imports c ∨ f.Implicit c) ∧ text = c.canonical) := by
  cases hw with
  | before hown => exact absurd hown h
  | within hown => exact absurd hown h
  | short _ hs => exact .inl ⟨hs, rfl⟩
  | full _ hs => exact .inr ⟨hs, rfl⟩

/-- The naming is that of the file, at some place around which the classes `enclosing` stand. -/
structure Naming.At (n : Naming) (f : File) : Prop where
  eq : n = { Naming.ofFile f with enclosing := n.enclosing }
  enclosing : n.enclosing = [] ∨ ∃ more, n.enclosing = f.content.name :: more

theorem Naming.At.inside {f : File} {n : Naming} (h : n.At f) {name : String}
    (hname : n.enclosing = [] → name = f.content.name) : (n.inside name).At f := by
  refine ⟨?_, .inr ?_⟩
  · rw [Naming.inside, h.eq]
  · rcases h.enclosing with he | ⟨more, he⟩
    · exact ⟨[], by rw [Naming.inside, he, hname he]; rfl⟩
    · exact ⟨more ++ [name], by rw [Naming.inside, he]; rfl⟩

mutual

theorem Class.at_of_mem_namings {f : File} {outside n : Naming} (h : outside.At f) (k : Class)
    (hk : outside.enclosing = [] → k.name = f.content.name) (hn : n ∈ k.namings outside) :
    n.At f := by
  cases k with
  | mk name marks modifiers fields methods classes =>
    rw [Class.namings] at hn
    rcases List.mem_cons.mp hn with rfl | hn
    · exact h
    · rcases List.mem_cons.mp hn with rfl | hn
      · exact h.inside hk
      · refine Class.at_of_mem_namingsOf (h.inside hk) ?_ classes hn
        exact List.append_ne_nil_of_right_ne_nil _ (List.cons_ne_nil _ _)

theorem Class.at_of_mem_namingsOf {f : File} {outside n : Naming} (h : outside.At f)
    (hne : outside.enclosing ≠ []) (classes : List Class)
    (hn : n ∈ Class.namingsOf outside classes) : n.At f := by
  cases classes with
  | nil =>
    rw [Class.namingsOf] at hn
    cases hn
  | cons k rest =>
    rw [Class.namingsOf] at hn
    rcases List.mem_append.mp hn with hn | hn
    · exact Class.at_of_mem_namings h k (fun he => absurd he hne) hn
    · exact Class.at_of_mem_namingsOf h hne rest hn

end

theorem File.at_of_mem_namings {f : File} {n : Naming} (h : n ∈ f.namings) : n.At f :=
  Class.at_of_mem_namings ⟨rfl, .inl rfl⟩ f.content (fun _ => rfl) h

theorem isImported_iff {package : String} {declared : List String} {mentioned : List ClassName}
    {c : ClassName} : isImported package declared mentioned c = true ↔
      (∀ other ∈ mentioned, other.outer = c.outer → other = c) ∧ c.outer ∉ declared ∧
        c.package ≠ "" ∧ c.package ≠ package ∧ c.package ≠ implicitPackage := by
  simp [isImported, and_assoc, Classical.or_iff_not_imp_left]

section Places

variable {f : File} {n : Naming} {c : ClassName}

/-- The table of imports holds the top-level class of a mentioned class, or nothing in its place. -/
theorem File.get?_imports (hc : c ∈ f.content.mentions) :
    (f.Imports c ∧ Dict.get? f.imports c.outer = some c.topLevel) ∨
      (¬ f.Imports c ∧ Dict.get? f.imports c.outer = none) := by
  have hm : c.topLevel ∈ f.content.mentions.map ClassName.topLevel := List.mem_map_of_mem hc
  cases h : Dict.get? f.imports c.outer with
  | some d =>
    have hmem := Dict.mem_of_mem_ofList (Dict.mem_of_get?_eq_some h)
    obtain ⟨e, he, hpair⟩ := List.mem_map.mp hmem
    obtain ⟨houter, rfl⟩ := Prod.mk.injEq _ _ _ _ ▸ hpair
    have himported := (List.mem_filter.mp he).2
    have hsame : c.topLevel = e := (isImported_iff.mp himported).1 _ hm houter.symm
    refine .inl ⟨?_, by rw [hsame]⟩
    rw [File.Imports, hsame]
    exact himported
  | none =>
    refine .inr ⟨?_, rfl⟩
    intro himported
    rw [Dict.get?_eq_none_iff] at h
    refine h (Dict.mem_keys_ofList (List.mem_map.mpr ⟨c.topLevel, ?_, rfl⟩))
    exact List.mem_filter.mpr ⟨hm, himported⟩

theorem Naming.At.isShort_iff (hn : n.At f) (hc : c ∈ f.content.mentions) :
    n.isShort c = true ↔ f.Imports c ∨ f.Implicit c := by
  have hpackage : n.package = f.package := congrArg Naming.package hn.eq
  have htable : n.imports = f.imports := congrArg Naming.imports hn.eq
  have hdeclared : n.declared = f.content.declared := congrArg Naming.declared hn.eq
  rcases File.get?_imports hc with ⟨himports, hget⟩ | ⟨himports, hget⟩
  · simp [isShort, htable, hget, himports, ClassName.topLevel]
  · simp [isShort, htable, hpackage, hdeclared, hget, himports, File.Implicit]

theorem File.name_mem_declared (f : File) : f.content.name ∈ f.content.declared := by
  obtain ⟨package, content, comment⟩ := f
  cases content
  rw [Class.declared]
  exact List.mem_cons_self

theorem File.not_mem_declared_of_short (h : f.Imports c ∨ f.Implicit c) :
    c.outer ∉ f.content.declared := by
  rcases h with himports | himplicit
  · exact (isImported_iff.mp himports).2.1
  · exact himplicit.2

theorem File.Owns.not_short (h : f.Owns c) : ¬ (f.Imports c ∨ f.Implicit c) :=
  fun hs => File.not_mem_declared_of_short hs (h.2 ▸ f.name_mem_declared)

/-- The names of a class have a start in common with the classes around a place exactly when it is
the class of the file and the place is inside. -/
theorem Naming.At.common_pos_iff (hn : n.At f) :
    0 < (if c.package = n.package then commonStart c.simpleNames n.enclosing else 0) ↔
      f.Owns c ∧ n.enclosing ≠ [] := by
  have hpackage : n.package = f.package := congrArg Naming.package hn.eq
  rw [hpackage, File.Owns, ClassName.simpleNames]
  rcases hn.enclosing with he | ⟨more, he⟩
  · simp [he, commonStart]
  · by_cases hp : c.package = f.package <;> by_cases ho : c.outer = f.content.name <;>
      simp [he, commonStart, hp, ho]

theorem Naming.At.written (hn : n.At f) (hc : c ∈ f.content.mentions) :
    Written f n c (n.className c) := by
  have hshort := hn.isShort_iff hc
  have hcommon := hn.common_pos_iff (c := c)
  rw [className]
  by_cases howns : f.Owns c
  · have hfull : ¬ n.isShort c = true := fun h => howns.not_short (hshort.mp h)
    by_cases he : n.enclosing = []
    · rw [if_neg (fun h => (hcommon.mp h).2 he), if_neg hfull]
      exact .before howns he
    · have hpackage : c.package = n.package := howns.1.trans (congrArg Naming.package hn.eq).symm
      have hpos := hcommon.mpr ⟨howns, he⟩
      rw [if_pos hpos, if_pos hpackage]
      exact .within howns he
  · rw [if_neg fun h => howns (hcommon.mp h).1]
    by_cases hs : n.isShort c = true
    · rw [if_pos hs]
      exact .short howns (hshort.mp hs)
    · rw [if_neg hs]
      exact .full howns fun h => hs (hshort.mpr h)

theorem Naming.At.className_eq_iff_written (hn : n.At f) (hc : c ∈ f.content.mentions)
    {text : String} : n.className c = text ↔ Written f n c text :=
  ⟨fun h => h ▸ hn.written hc, fun h => (hn.written hc).unique h⟩

end Places

/-- Two classes with the same simple names, which need no import: one in the package of the file,
the other in `java.lang`. -/
structure File.ImplicitClash (f : File) (a b : ClassName) : Prop where
  outer : a.outer = b.outer
  inner : a.inner = b.inner
  undeclared : a.outer ∉ f.content.declared
  packages : (a.package = f.package ∧ b.package = implicitPackage) ∨
    (a.package = implicitPackage ∧ b.package = f.package)

section Pairs

variable {f : File} {n : Naming} {a b : ClassName}

theorem File.ImplicitClash.implicit (h : f.ImplicitClash a b) : f.Implicit a ∧ f.Implicit b := by
  have hb : b.outer ∉ f.content.declared := h.outer ▸ h.undeclared
  rcases h.packages with ⟨ha, hb'⟩ | ⟨ha, hb'⟩
  · exact ⟨⟨.inl ha, h.undeclared⟩, ⟨.inr hb', hb⟩⟩
  · exact ⟨⟨.inr ha, h.undeclared⟩, ⟨.inl hb', hb⟩⟩

theorem File.ImplicitClash.dotted_eq (h : f.ImplicitClash a b) : a.dotted = b.dotted := by
  rw [ClassName.dotted, ClassName.dotted, ClassName.simpleNames, ClassName.simpleNames, h.outer,
    h.inner]

/-- Mentioned classes with one outer name, of which one is imported, are in the same package. -/
theorem File.Imports.package_eq (h : f.Imports a) (hb : b ∈ f.content.mentions)
    (houter : a.outer = b.outer) : a.package = b.package := by
  have hm : b.topLevel ∈ f.content.mentions.map ClassName.topLevel := List.mem_map_of_mem hb
  have hsame : b.topLevel = a.topLevel := (isImported_iff.mp h).1 _ hm houter.symm
  exact (congrArg ClassName.package hsame).symm

theorem File.implicitClash_of_short (ha : a ∈ f.content.mentions) (hb : b ∈ f.content.mentions)
    (hab : a ≠ b) (hsa : f.Imports a ∨ f.Implicit a) (hsb : f.Imports b ∨ f.Implicit b)
    (houter : a.outer = b.outer) (hinner : a.inner = b.inner) : f.ImplicitClash a b := by
  have hpackage : a.package ≠ b.package := by
    intro h
    apply hab
    cases a
    cases b
    simp_all
  rcases hsa with hsa | hsa
  · exact absurd (hsa.package_eq hb houter) hpackage
  · rcases hsb with hsb | hsb
    · exact absurd (hsb.package_eq ha houter.symm).symm hpackage
    · refine ⟨houter, hinner, hsa.2, ?_⟩
      rcases hsa.1 with hpa | hpa <;> rcases hsb.1 with hpb | hpb
      · exact absurd (hpa.trans hpb.symm) hpackage
      · exact .inl ⟨hpa, hpb⟩
      · exact .inr ⟨hpa, hpb⟩
      · exact absurd (hpa.trans hpb.symm) hpackage

/-- Two different classes are written alike by an implicit clash, or else one of them is the class
of the file or nested in it. -/
theorem Naming.At.className_eq_iff (hn : n.At f) (ha : a ∈ f.content.mentions)
    (hb : b ∈ f.content.mentions) (hra : f.Owns a ∨ a.Regular) (hrb : f.Owns b ∨ b.Regular)
    (hab : a ≠ b) : n.className a = n.className b ↔
      f.ImplicitClash a b ∨
        (f.Owns a ∨ f.Owns b) ∧ ∃ text, Written f n a text ∧ Written f n b text := by
  have hwa := hn.written ha
  have hwb := hn.written hb
  constructor
  · intro h
    by_cases howns : f.Owns a ∨ f.Owns b
    · exact .inr ⟨howns, _, hwa, h ▸ hwb⟩
    · obtain ⟨hoa, hob⟩ := not_or.mp howns
      have hra := hra.resolve_left hoa
      have hrb := hrb.resolve_left hob
      left
      rcases hwa.of_not_owns hoa with ⟨hsa, hta⟩ | ⟨hsa, hta⟩ <;>
        rcases hwb.of_not_owns hob with ⟨hsb, htb⟩ | ⟨hsb, htb⟩ <;> rw [hta, htb] at h
      · obtain ⟨houter, hinner⟩ := hra.simpleNames_of_dotted_eq hrb h
        exact File.implicitClash_of_short ha hb hab hsa hsb houter hinner
      · exact absurd h (hra.dotted_ne_canonical hrb)
      · exact absurd h.symm (hrb.dotted_ne_canonical hra)
      · exact absurd (hra.canonical_inj hrb h) hab
  · rintro (hclash | ⟨-, text, hta, htb⟩)
    · obtain ⟨hia, hib⟩ := hclash.implicit
      have hoa : ¬ f.Owns a := fun h => h.not_short (.inr hia)
      have hob : ¬ f.Owns b := fun h => h.not_short (.inr hib)
      rw [hn.className_eq_iff_written ha, hwb.unique (.short hob (.inr hib)), ← hclash.dotted_eq]
      exact .short hoa (.inr hia)
    · rw [hwa.unique hta, hwb.unique htb]

end Pairs

end Provisioning.Source
