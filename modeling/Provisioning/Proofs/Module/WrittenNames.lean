import Provisioning.Proofs.Module.Mentions
import Provisioning.Proofs.Module.Planning
import Provisioning.Proofs.Source.WrittenNames

/-! # Class names in a module

The classes that a module mentions are regular as long as they have a package, up
to the module itself, whose name a container may choose freely. So the only two
classes that can be mixed up in an ordinary module are one from the package of the
container and one from `java.lang`, which are both written without an import.
-/

namespace Provisioning

open Source

namespace ModulePlan

variable {p : ModulePlan} {markers : Markers}

/-- The classes of the file are the module and its builder, the name of the module is a segment in
upper case, and it is not the name of the builder. -/
structure Ordinary (p : ModulePlan) (markers : Markers) : Prop where
  isSegment : ClassName.IsSegment p.moduleClass.outer
  upper : ClassName.startsUpper p.moduleClass.outer.toList = true
  ne_builder : p.moduleClass.outer ≠ builderName
  owned : ∀ c ∈ (p.sourceFile markers).content.mentions, (p.sourceFile markers).Owns c →
    c = p.moduleClass ∨ c = p.builderClass

theorem declared_sourceFile :
    (p.sourceFile markers).content.declared = [p.moduleClass.simpleName, builderName] := by
  simp [sourceFile, moduleDecl, builder, Class.declared, Class.declaredOf]

theorem simpleName_of_inner {c : ClassName} (h : c.inner = []) : c.simpleName = c.outer := by
  rw [ClassName.simpleName, h]
  rfl

theorem name_sourceFile (hinner : p.moduleClass.inner = []) :
    (p.sourceFile markers).content.name = p.moduleClass.outer := simpleName_of_inner hinner

theorem owns_of_eq (hinner : p.moduleClass.inner = []) {c : ClassName}
    (hc : c = p.moduleClass ∨ c = p.builderClass) : (p.sourceFile markers).Owns c := by
  rcases hc with rfl | rfl <;> exact ⟨rfl, (name_sourceFile hinner).symm⟩

theorem owns_or_regular (hinner : p.moduleClass.inner = []) {c : ClassName}
    (hc : c ∈ (p.sourceFile markers).content.mentions) (hpackage : c.package ≠ "") :
    (p.sourceFile markers).Owns c ∨ c.Regular := by
  rcases fromPlan_mentions hc with ⟨name, rfl⟩ | hc
  · exact .inr (ClassName.regular_guess hpackage)
  · exact .inl (owns_of_eq hinner hc)

theorem simpleName_mem_declared {c : ClassName} (hc : c = p.moduleClass ∨ c = p.builderClass) :
    c.simpleName ∈ (p.sourceFile markers).content.declared := by
  rw [declared_sourceFile]
  rcases hc with rfl | rfl
  · exact List.mem_cons_self
  · simp [builderClass, ClassName.nested, ClassName.simpleName]

theorem simpleName_builderClass : p.builderClass.simpleName = builderName := by
  simp [builderClass, ClassName.nested, ClassName.simpleName]

section Ordinary

variable (hinner : p.moduleClass.inner = [])

include hinner

/-- How the module and its builder are written: in full before the class, and inside it by their
simple names. -/
theorem text_of_written {n : Naming} {c : ClassName} {text : String}
    (hn : n.At (p.sourceFile markers)) (hc : c = p.moduleClass ∨ c = p.builderClass)
    (hw : Written (p.sourceFile markers) n c text) :
    text = if n.enclosing = [] then c.canonical else c.simpleName := by
  have howns : (p.sourceFile markers).Owns c := owns_of_eq hinner hc
  cases hw with
  | short h => exact absurd howns h
  | full h => exact absurd howns h
  | before _ he => rw [if_pos he]
  | within _ he =>
    rw [if_neg he]
    obtain ⟨more, hmore⟩ := hn.enclosing.resolve_left he
    rw [name_sourceFile hinner] at hmore
    rcases hc with rfl | rfl
    · simp [ClassName.simpleNames, ClassName.simpleName, hinner, Text.join]
    · simp [ClassName.simpleNames, ClassName.simpleName, builderClass, ClassName.nested, hinner,
        hmore, commonStart, Text.join]

variable (hpackage : ClassName.IsPackage p.moduleClass.package) (ho : p.Ordinary markers)

include hpackage ho

theorem Ordinary.regular_moduleClass : p.moduleClass.Regular := by
  refine ⟨hpackage, ?_, .inl ho.upper⟩
  intro s hs
  rw [ClassName.simpleNames, hinner, List.mem_singleton] at hs
  exact hs ▸ ho.isSegment

theorem Ordinary.regular_builderClass : p.builderClass.Regular := by
  refine ⟨hpackage, ?_, .inl ho.upper⟩
  intro s hs
  rw [ClassName.simpleNames, builderClass, ClassName.nested, hinner, List.nil_append] at hs
  rcases List.mem_cons.mp hs with rfl | hs
  · exact ho.isSegment
  · rw [List.mem_singleton.mp hs]
    exact ⟨by decide, by decide⟩

theorem Ordinary.regular {c : ClassName} (hc : c ∈ (p.sourceFile markers).content.mentions)
    (hne : c.package ≠ "") : c.Regular := by
  rcases owns_or_regular hinner hc hne with howns | hregular
  · rcases ho.owned c hc howns with rfl | rfl
    · exact ho.regular_moduleClass hinner hpackage
    · exact ho.regular_builderClass hinner hpackage
  · exact hregular

omit hpackage in
theorem Ordinary.guess_simpleName {c : ClassName} (hc : c = p.moduleClass ∨ c = p.builderClass) :
    ClassName.guess c.simpleName = ⟨"", c.simpleName, []⟩ := by
  have hsegment : ClassName.IsSegment c.simpleName ∧
      ClassName.startsUpper c.simpleName.toList = true := by
    rcases hc with rfl | rfl
    · rw [simpleName_of_inner hinner]
      exact ⟨ho.isSegment, ho.upper⟩
    · rw [simpleName_builderClass]
      exact ⟨⟨by decide, by decide⟩, by decide⟩
  refine @ClassName.guess_join [] [] c.simpleName (fun _ h => absurd h List.not_mem_nil) ?_
    (.inl hsegment.2)
  intro s hs
  rw [List.mem_singleton.mp hs]
  exact hsegment.1

/-- In an ordinary module no other class is written like the module or its builder. -/
theorem Ordinary.apart {n : Naming} {a b : ClassName} {text : String}
    (hn : n.At (p.sourceFile markers)) (ha : a = p.moduleClass ∨ a = p.builderClass)
    (hb : b ∈ (p.sourceFile markers).content.mentions) (hne : b.package ≠ "") (hab : a ≠ b)
    (hwa : Written (p.sourceFile markers) n a text)
    (hwb : Written (p.sourceFile markers) n b text) : False := by
  have hra : a.Regular := by
    rcases ha with rfl | rfl
    · exact ho.regular_moduleClass hinner hpackage
    · exact ho.regular_builderClass hinner hpackage
  have hrb := ho.regular hinner hpackage hb hne
  have hta := text_of_written hinner hn ha hwa
  by_cases hob : (p.sourceFile markers).Owns b
  · have htb := text_of_written hinner hn (ho.owned b hb hob) hwb
    rw [hta] at htb
    split at htb
    · exact hab (hra.canonical_inj hrb htb)
    · rcases ha with rfl | rfl <;> rcases ho.owned b hb hob with rfl | rfl
      · exact hab rfl
      · rw [simpleName_builderClass, simpleName_of_inner hinner] at htb
        exact ho.ne_builder htb
      · rw [simpleName_builderClass, simpleName_of_inner hinner] at htb
        exact ho.ne_builder htb.symm
      · exact hab rfl
  · rcases hwb.of_not_owns hob with ⟨hsb, htb⟩ | ⟨hsb, htb⟩ <;> rw [hta] at htb <;> split at htb
    · exact hrb.dotted_ne_canonical hra htb.symm
    · have hguess := congrArg ClassName.guess htb
      rw [ho.guess_simpleName hinner ha, hrb.guess_dotted] at hguess
      injection hguess with _ houter
      refine File.not_mem_declared_of_short hsb ?_
      rw [← houter]
      exact simpleName_mem_declared ha
    · exact hab (hra.canonical_inj hrb htb)
    · have hguess := congrArg ClassName.guess htb
      rw [ho.guess_simpleName hinner ha, hrb.guess_canonical] at hguess
      exact hne (congrArg ClassName.package hguess).symm

end Ordinary

/-- In the file of a container with a package, two mentioned classes with packages are written alike
exactly when they clash without an import, or when the rules give the class of the file or one
nested in it the text of the other. In an ordinary module only the first can happen. -/
theorem className_eq_iff_clash {env : Env} {d : TypeDecl} {p : ModulePlan}
    (hd : (Container.of env.markers d).className.package ≠ "")
    (h : (env.plan (.of env.markers d)).result = .ok p) {n : Naming}
    (hn : n ∈ (p.sourceFile env.markers).namings) {a b : ClassName}
    (ha : a ∈ (p.sourceFile env.markers).content.mentions)
    (hb : b ∈ (p.sourceFile env.markers).content.mentions)
    (hpa : a.package ≠ "") (hpb : b.package ≠ "") (hab : a ≠ b) :
    (n.className a = n.className b ↔ (p.sourceFile env.markers).ImplicitClash a b ∨
      ((p.sourceFile env.markers).Owns a ∨ (p.sourceFile env.markers).Owns b) ∧
        ∃ text, Written (p.sourceFile env.markers) n a text ∧
          Written (p.sourceFile env.markers) n b text) ∧
    (p.Ordinary env.markers →
      (n.className a = n.className b ↔ (p.sourceFile env.markers).ImplicitClash a b)) := by
  have hclass : p.moduleClass = (Container.of env.markers d).moduleClass := by
    obtain ⟨-, rfl⟩ := Env.plan_eq_ok h
    rfl
  have hinner : p.moduleClass.inner = [] := by rw [hclass]; rfl
  have hpackage : ClassName.IsPackage p.moduleClass.package := by
    simp only [hclass, Container.moduleClass, ClassName.topLevelOf, Container.of] at hd ⊢
    exact (ClassName.regular_guess hd).isPackage
  have hat := File.at_of_mem_namings hn
  have hiff := hat.className_eq_iff ha hb (owns_or_regular hinner ha hpa)
    (owns_or_regular hinner hb hpb) hab
  refine ⟨hiff, fun ho => hiff.trans (or_iff_left ?_)⟩
  rintro ⟨howns | howns, text, hwa, hwb⟩
  · exact ho.apart hinner hpackage hat (ho.owned a ha howns) hb hpb hab hwa hwb
  · exact ho.apart hinner hpackage hat (ho.owned b hb howns) ha hpa hab.symm hwb hwa

end ModulePlan

def twoFoos : TypeDecl :=
  ((bareContainer "app.BarComponent").withMember
    ((Callable.method "first" "x.Foo").annotated (.of Markers.default.runtime))).withMember
    ((Callable.method "second" "y.Foo").annotated (.of Markers.default.runtime))

def twoFoosPlan : ModulePlan where
  container := .of .default twoFoos
  moduleClass := ⟨"app", "BarModule", []⟩
  provisions := [.runtime ⟨"first", ⟨"x.Foo"⟩, false, [], []⟩,
    .runtime ⟨"second", ⟨"y.Foo"⟩, false, [], []⟩]

theorem foos_written_apart :
    ((Env.single twoFoos).plan (.of .default twoFoos)).result = .ok twoFoosPlan ∧
    twoFoosPlan.Ordinary .default ∧
    ∃ n ∈ (twoFoosPlan.sourceFile .default).namings,
      ⟨"x", "Foo", []⟩ ∈ (twoFoosPlan.sourceFile .default).content.mentions ∧
      ⟨"y", "Foo", []⟩ ∈ (twoFoosPlan.sourceFile .default).content.mentions ∧
      n.className ⟨"x", "Foo", []⟩ ≠ n.className ⟨"y", "Foo", []⟩ := by
  have hplan : ((Env.single twoFoos).plan (.of .default twoFoos)).result = .ok twoFoosPlan := rfl
  have hordinary : twoFoosPlan.Ordinary .default := by
    refine ⟨⟨by decide, by decide⟩, by decide, by decide, ?_⟩
    unfold File.Owns
    decide +kernel
  have hx : ⟨"x", "Foo", []⟩ ∈ (twoFoosPlan.sourceFile .default).content.mentions := by
    decide +kernel
  have hy : ⟨"y", "Foo", []⟩ ∈ (twoFoosPlan.sourceFile .default).content.mentions := by
    decide +kernel
  have hd : (Container.of (Env.single twoFoos).markers twoFoos).className.package ≠ "" := by decide
  have hn : (Naming.ofFile (twoFoosPlan.sourceFile .default)).inside "BarModule" ∈
      (twoFoosPlan.sourceFile .default).namings := List.mem_cons_of_mem _ List.mem_cons_self
  refine ⟨hplan, hordinary, _, hn, hx, hy, ?_⟩
  have hiff := (ModulePlan.className_eq_iff_clash hd hplan hn hx hy (by decide) (by decide)
    (by decide)).2 hordinary
  rw [ne_eq, hiff]
  rintro ⟨-, -, -, ⟨-, hlang⟩ | ⟨hlang, -⟩⟩
  · exact absurd hlang (by decide)
  · exact absurd hlang (by decide)

/-- A container of two runtime values, whose classes share a name with nothing to tell them apart:
one is in the package of the container, the other in `java.lang`. -/
def twoStrings : TypeDecl :=
  ((bareContainer "app.FooComponent").withMember
    ((Callable.method "first" "app.String").annotated (.of Markers.default.runtime))).withMember
    ((Callable.method "second" "java.lang.String").annotated (.of Markers.default.runtime))

theorem strings_written_alike : ∃ p,
    ((Env.single twoStrings).plan (.of .default twoStrings)).result = .ok p ∧
    ∃ n ∈ (p.sourceFile .default).namings,
      ⟨"app", "String", []⟩ ∈ (p.sourceFile .default).content.mentions ∧
      ⟨"java.lang", "String", []⟩ ∈ (p.sourceFile .default).content.mentions ∧
      n.className ⟨"app", "String", []⟩ = "String" ∧
      n.className ⟨"java.lang", "String", []⟩ = "String" := by
  refine ⟨_, rfl, _, List.mem_cons_of_mem _ List.mem_cons_self, ?_, ?_, ?_, ?_⟩
  · decide +kernel
  · decide +kernel
  · decide +kernel
  · decide +kernel

end Provisioning
