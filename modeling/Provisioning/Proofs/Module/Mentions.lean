import Provisioning.ModulePlan
import Provisioning.Proofs.Source.Mentions

/-! # The classes that a module mentions

Apart from the module and its builder, a generated file mentions only classes
that were read from the texts of declarations and markers.
-/

namespace Provisioning

open Source

theorem Source.Mark.classes_of (c : ClassName) : (Mark.of c).classes = [c] := by
  simp [Mark.classes, Mark.toPart, Mark.of, CodePart.classes, CodePart.classesOfMembers]

theorem Source.Code.classes_text (s : String) : Code.classes (Code.text s) = [] := by
  simp [Code.classes, Code.text, CodePart.classesOfCode, CodePart.classes]

theorem Source.Code.classes_around (before after : String) (t : TypeName) :
    Code.classes [.text before, .type t, .text after] = t.classes := by
  simp [Code.classes, CodePart.classesOfCode, CodePart.classes]

theorem Source.Method.forall_classes {P : ClassName → Prop} {m : Method}
    (hmarks : ∀ c ∈ m.marks.flatMap Mark.classes, P c)
    (hreturns : ∀ t ∈ m.returns, ∀ c ∈ t.classes, P c)
    (hparameters : ∀ q ∈ m.parameters, ∀ c ∈ q.classes, P c)
    (hstatements : ∀ s ∈ m.statements, ∀ c ∈ Code.classes s, P c) : ∀ c ∈ m.classes, P c := by
  intro c hc
  rw [Method.classes] at hc
  rcases List.mem_append.mp hc with hc | hc
  · exact hmarks c hc
  rcases List.mem_append.mp hc with hc | hc
  · obtain ⟨t, ht, hc⟩ := List.mem_flatMap.mp hc
    exact hreturns t (Option.mem_toList.mp ht) c hc
  rcases List.mem_append.mp hc with hc | hc
  · obtain ⟨q, hq, hc⟩ := List.mem_flatMap.mp hc
    exact hparameters q hq c hc
  · obtain ⟨s, hs, hc⟩ := List.mem_flatMap.mp hc
    exact hstatements s hs c hc

theorem Source.guessed_marks {uses : List AnnotationUse} {c : ClassName}
    (h : c ∈ (uses.map Mark.ofUse).flatMap Mark.classes) : c.Guessed := by
  obtain ⟨k, hk, hc⟩ := List.mem_flatMap.mp h
  obtain ⟨a, -, rfl⟩ := List.mem_map.mp hk
  exact Mark.guessed_ofUse hc

theorem Source.guessed_parameter {type name : String} {uses : List AnnotationUse} {c : ClassName}
    (h : c ∈ Parameter.classes ⟨.parse type, name, uses.map Mark.ofUse⟩) : c.Guessed := by
  rcases List.mem_append.mp h with h | h
  · exact TypeName.guessed_parse h
  · exact guessed_marks h

namespace ModulePlan

/-- The class was read from a text, or it is the module or its builder. -/
def FromPlan (p : ModulePlan) (c : ClassName) : Prop :=
  c.Guessed ∨ c = p.moduleClass ∨ c = p.builderClass

variable {p : ModulePlan} {markers : Markers}

theorem guessed_provider_marks {value : ProvidedValue} :
    ∀ c ∈ (provider markers value).marks.flatMap Mark.classes, c.Guessed := by
  intro c hc
  rw [provider, List.flatMap_cons, Mark.classes_of] at hc
  rcases List.mem_append.mp hc with hc | hc
  · exact ⟨_, List.mem_singleton.mp hc⟩
  · exact guessed_marks hc

theorem guessed_returns {value : ProvidedValue} :
    ∀ t ∈ some value.type, ∀ c ∈ t.classes, c.Guessed := by
  intro t ht c hc
  cases ht
  exact TypeName.guessed_parse hc

theorem guessed_constructedProvider {value : ProvidedValue} {implementation : TypeText}
    {parameters : List Variable} :
    ∀ c ∈ (constructedProvider markers value implementation parameters).classes, c.Guessed := by
  refine Method.forall_classes guessed_provider_marks guessed_returns ?_ ?_
  · intro q hq c hc
    obtain ⟨v, -, rfl⟩ := List.mem_map.mp hq
    exact guessed_parameter hc
  · intro s hs c hc
    rw [List.mem_singleton.mp hs, Code.classes_around] at hc
    exact TypeName.guessed_parse hc

theorem guessed_injectedProvider {value : ProvidedValue} {implementation : TypeText} :
    ∀ c ∈ (injectedProvider markers value implementation).classes, c.Guessed := by
  refine Method.forall_classes guessed_provider_marks guessed_returns ?_ ?_
  · intro q hq c hc
    rw [List.mem_singleton.mp hq] at hc
    exact guessed_parameter hc
  · intro s hs c hc
    rw [List.mem_singleton.mp hs, Code.classes_text] at hc
    cases hc

theorem guessed_runtimeProvider {value : ProvidedValue} :
    ∀ c ∈ (runtimeProvider markers value).classes, c.Guessed := by
  refine Method.forall_classes guessed_provider_marks guessed_returns ?_ ?_
  · intro q hq
    cases hq
  · intro s hs c hc
    rw [List.mem_singleton.mp hs, Code.classes_text] at hc
    cases hc

theorem guessed_providers {m : Method} (hm : m ∈ p.providers markers) :
    ∀ c ∈ m.classes, c.Guessed := by
  rcases List.mem_append.mp hm with hm | hm
  · rcases List.mem_append.mp hm with hm | hm
    · obtain ⟨⟨value, implementation, parameters⟩, -, rfl⟩ := List.mem_map.mp hm
      exact guessed_constructedProvider
    · obtain ⟨⟨value, implementation⟩, -, rfl⟩ := List.mem_map.mp hm
      exact guessed_injectedProvider
  · obtain ⟨value, -, rfl⟩ := List.mem_map.mp hm
    exact guessed_runtimeProvider

theorem guessed_runtime_parameter {value : ProvidedValue} {c : ClassName}
    (h : c ∈ Parameter.classes ⟨value.type, value.name, []⟩) : c.Guessed :=
  @guessed_parameter value.returns.text value.name [] c h

theorem guessed_moduleConstructor : ∀ c ∈ p.moduleConstructor.classes, c.Guessed := by
  refine Method.forall_classes ?_ ?_ ?_ ?_
  · intro c hc
    cases hc
  · intro t ht
    cases ht
  · intro q hq c hc
    obtain ⟨value, -, rfl⟩ := List.mem_map.mp hq
    exact guessed_runtime_parameter hc
  · intro s hs c hc
    obtain ⟨value, -, rfl⟩ := List.mem_map.mp hs
    rw [assignment, Code.classes_text] at hc
    cases hc

theorem fromPlan_setter {value : ProvidedValue} : ∀ c ∈ (p.setter value).classes, p.FromPlan c := by
  refine Method.forall_classes ?_ ?_ ?_ ?_
  · intro c hc
    cases hc
  · intro t ht c hc
    cases ht
    exact .inr (.inr (List.mem_singleton.mp hc))
  · intro q hq c hc
    rw [List.mem_singleton.mp hq] at hc
    exact .inl (guessed_runtime_parameter hc)
  · intro s hs c hc
    rcases List.mem_cons.mp hs with rfl | hs
    · rw [assignment, Code.classes_text] at hc
      cases hc
    · rw [List.mem_singleton.mp hs, Code.classes_text] at hc
      cases hc

theorem guessed_nullGuard {value : ProvidedValue} : ∀ c ∈ (nullGuard value).classes, c.Guessed := by
  intro c hc
  have hc : c = .topLevelOf implicitPackage "NullPointerException" := by
    simpa [nullGuard, Code.classes, CodePart.classesOfCode, CodePart.classes, TypeName.classes]
      using hc
  exact ⟨"java.lang.NullPointerException", hc.trans rfl⟩

theorem fromPlan_buildMethod : ∀ c ∈ p.buildMethod.classes, p.FromPlan c := by
  refine Method.forall_classes ?_ ?_ ?_ ?_
  · intro c hc
    cases hc
  · intro t ht c hc
    cases ht
    exact .inr (.inl (List.mem_singleton.mp hc))
  · intro q hq
    cases hq
  · intro s hs c hc
    rcases List.mem_append.mp hs with hs | hs
    · obtain ⟨value, -, rfl⟩ := List.mem_map.mp hs
      exact .inl (guessed_nullGuard c hc)
    · rw [List.mem_singleton.mp hs, Code.classes_around] at hc
      exact .inr (.inl (List.mem_singleton.mp hc))

theorem fromPlan_builderMethod : ∀ c ∈ p.builderMethod.classes, p.FromPlan c := by
  refine Method.forall_classes ?_ ?_ ?_ ?_
  · intro c hc
    cases hc
  · intro t ht c hc
    cases ht
    exact .inr (.inr (List.mem_singleton.mp hc))
  · intro q hq
    cases hq
  · intro s hs c hc
    rw [List.mem_singleton.mp hs, Code.classes_around] at hc
    exact .inr (.inr (List.mem_singleton.mp hc))

theorem fromPlan_createMethod : ∀ c ∈ p.createMethod.classes, p.FromPlan c := by
  refine Method.forall_classes ?_ ?_ ?_ ?_
  · intro c hc
    cases hc
  · intro t ht c hc
    cases ht
    exact .inr (.inl (List.mem_singleton.mp hc))
  · intro q hq
    cases hq
  · intro s hs c hc
    rw [List.mem_singleton.mp hs, Code.classes_text] at hc
    cases hc

theorem guessed_runtime_fields {modifiers : Modifiers} {c : ClassName}
    (h : c ∈ (p.runtime.map fun m => (⟨m.type, m.name, modifiers, []⟩ : Field)).flatMap
      Field.classes) : c.Guessed := by
  obtain ⟨f, hf, hc⟩ := List.mem_flatMap.mp h
  obtain ⟨value, -, rfl⟩ := List.mem_map.mp hf
  rcases List.mem_append.mp hc with hc | hc
  · exact TypeName.guessed_parse hc
  · cases hc

theorem fromPlan_builder : ∀ c ∈ p.builder.mentions, p.FromPlan c := by
  intro c hc
  simp only [builder, Class.mentions, List.flatMap_nil, List.nil_append, List.mem_append] at hc
  rcases hc with hc | hc | hc
  · exact .inl (guessed_runtime_fields hc)
  · obtain ⟨m, hm, hc⟩ := List.mem_flatMap.mp hc
    rcases List.mem_append.mp hm with hm | hm
    · obtain ⟨value, -, rfl⟩ := List.mem_map.mp hm
      exact fromPlan_setter c hc
    · rw [List.mem_singleton.mp hm] at hc
      exact fromPlan_buildMethod c hc
  · cases hc

theorem fromPlan_mentions {c : ClassName}
    (h : c ∈ (p.sourceFile markers).content.mentions) : p.FromPlan c := by
  simp only [sourceFile, moduleDecl, Class.mentions, Class.mentionsOf, List.mem_append] at h
  rcases h with h | h | h | h | h
  · rw [List.flatMap_cons, Mark.classes_of] at h
    exact .inl ⟨_, List.mem_singleton.mp h⟩
  · exact .inl (guessed_runtime_fields h)
  · obtain ⟨m, hm, h⟩ := List.mem_flatMap.mp h
    rcases List.mem_append.mp hm with hm | hm
    · rcases List.mem_append.mp hm with hm | hm
      · exact .inl (guessed_providers hm c h)
      · rcases List.mem_cons.mp hm with rfl | hm
        · exact .inl (guessed_moduleConstructor c h)
        · rw [List.mem_singleton.mp hm] at h
          exact fromPlan_builderMethod c h
    · split at hm
      · rw [List.mem_singleton.mp hm] at h
        exact fromPlan_createMethod c h
      · cases hm
  · exact fromPlan_builder c h
  · cases h

end ModulePlan

end Provisioning
