import Provisioning.Proofs.Module.Planning

/-! # Declared names of a module

A module has one provider for each provision, and everything else in it is named
after the runtime provisions. So all of its declarations are distinct as soon as
no two providers agree in name and parameter types. A provider is named after its
method with the first letter in upper case, and overloads are told apart by their
own parameters, which a provider does not have. Both can make providers agree.
-/

namespace Provisioning

open Source

def Source.Method.signature (m : Method) : Option String × List TypeName :=
  (m.name, m.parameters.map Parameter.type)

/-- A class with distinct names for its fields and for the parameters of each constructor, and with
distinct signatures for its methods. -/
structure Source.Class.DeclaresOnce (c : Class) : Prop where
  fields : (c.fields.map Field.name).Nodup
  parameters : ∀ m ∈ c.methods, m.isConstructor = true → (m.parameters.map Parameter.name).Nodup
  methods : (c.methods.map Method.signature).Nodup

namespace Provision

def parameterTypes : Provision → List TypeName
  | .runtime _ => []
  | .injected _ implementation => [.parse implementation.text]
  | .constructed _ _ parameters => parameters.map fun v => .parse v.type.text

def signature (a : Provision) : Option String × List TypeName :=
  (some a.value.providerName, a.parameterTypes)

/-- The providers of two provisions have the same name and parameters of the same types. -/
def Clashes (a b : Provision) : Prop :=
  a.value.providerName = b.value.providerName ∧ a.parameterTypes = b.parameterTypes

theorem signature_eq_iff {a b : Provision} : a.signature = b.signature ↔ a.Clashes b := by
  simp [signature, Clashes]

end Provision

theorem ProvidedValue.providerName_prefix (m : ProvidedValue) :
    "provide".toList <+: m.providerName.toList := by
  unfold providerName
  split
  · exact List.prefix_refl _
  · rename_i c rest _
    exact ⟨Text.upperCase c ++ rest, by simp⟩

theorem ProvidedValue.providerName_ne (m : ProvidedValue) (name : String)
    (h : ¬ "provide".toList <+: name.toList) : m.providerName ≠ name :=
  fun he => h (he ▸ m.providerName_prefix)

namespace ModulePlan

section Signatures

variable (markers : Markers)

theorem signature_constructedProvider (m : ProvidedValue) (implementation : TypeText)
    (parameters : List Variable) :
    (constructedProvider markers m implementation parameters).signature =
      (Provision.constructed m implementation parameters).signature := by
  simp [Method.signature, Provision.signature, Provision.parameterTypes, constructedProvider,
    provider, Method.named, Provision.value]

theorem signature_injectedProvider (m : ProvidedValue) (implementation : TypeText) :
    (injectedProvider markers m implementation).signature =
      (Provision.injected m implementation).signature := rfl

theorem signature_runtimeProvider (m : ProvidedValue) :
    (runtimeProvider markers m).signature = (Provision.runtime m).signature := rfl

/-- There is one provider for each provision, with the signature of this provision. -/
theorem signatures_providers_perm (p : ModulePlan) :
    ((p.providers markers).map Method.signature).Perm (p.provisions.map Provision.signature) := by
  obtain ⟨container, moduleClass, provisions⟩ := p
  induction provisions with
  | nil => exact List.Perm.refl _
  | cons a rest ih =>
    simp only [providers, constructed, injected, runtime, List.map_append, List.map_map,
      List.append_assoc] at ih ⊢
    cases a with
    | constructed m implementation parameters =>
      simp only [List.filterMap_cons, List.map_cons, List.cons_append, Function.comp_apply,
        signature_constructedProvider]
      exact ih.cons _
    | injected m implementation =>
      simp only [List.filterMap_cons, List.map_cons, List.cons_append, Function.comp_apply,
        signature_injectedProvider]
      exact List.perm_middle.trans (ih.cons _)
    | runtime m =>
      simp only [List.filterMap_cons, List.map_cons, Function.comp_apply,
        signature_runtimeProvider]
      rw [← List.append_assoc] at ih ⊢
      exact List.perm_middle.trans (ih.cons _)

end Signatures

variable {p : ModulePlan} {markers : Markers}

theorem nodup_name_runtime (h : p.provisions.Pairwise fun a b => ¬ a.Clashes b) :
    (p.runtime.map ProvidedValue.name).Nodup := by
  unfold runtime
  rw [List.Nodup, List.pairwise_map, List.pairwise_filterMap]
  refine h.imp ?_
  intro a b hab m hm k hk he
  cases a with
  | injected => cases hm
  | constructed => cases hm
  | runtime m' =>
    cases b with
    | injected => cases hk
    | constructed => cases hk
    | runtime k' =>
      cases hm
      cases hk
      refine hab ⟨?_, rfl⟩
      simp only [Provision.value, ProvidedValue.providerName, he]

def others (p : ModulePlan) : List Method :=
  [p.moduleConstructor, p.builderMethod] ++ if p.hasCreate then [p.createMethod] else []

theorem mem_others {m : Method} : m ∈ p.others ↔
    m = p.moduleConstructor ∨ m = p.builderMethod ∨ p.hasCreate = true ∧ m = p.createMethod := by
  cases h : p.hasCreate <;> simp [others, h]

theorem nodup_signature_others : (p.others.map Method.signature).Nodup := by
  unfold others
  split <;>
    simp [Method.signature, moduleConstructor, builderMethod, createMethod, Method.constructor,
      Method.named]

theorem name_ne_of_mem_others {m : Method} (hm : m ∈ p.others) (value : ProvidedValue) :
    some value.providerName ≠ m.name := by
  have hbuilder := value.providerName_ne "builder" (by decide)
  have hcreate := value.providerName_ne "create" (by decide)
  rcases mem_others.mp hm with rfl | rfl | ⟨-, rfl⟩
  · nofun
  · exact fun h => hbuilder (Option.some.inj h)
  · exact fun h => hcreate (Option.some.inj h)

theorem eq_of_mem_others {m : Method} (hm : m ∈ p.others) (hc : m.isConstructor = true) :
    m = p.moduleConstructor := by
  rcases mem_others.mp hm with rfl | rfl | ⟨-, rfl⟩
  · rfl
  · cases hc
  · cases hc

theorem methods_moduleDecl :
    (p.moduleDecl markers).methods = p.providers markers ++ p.others := List.append_assoc _ _ _

theorem exists_of_mem_providers {m : Method} (hm : m ∈ p.providers markers) :
    ∃ a ∈ p.provisions, a.signature = m.signature :=
  List.mem_map.mp ((signatures_providers_perm markers p).mem_iff.mp (List.mem_map_of_mem hm))

theorem name_of_mem_providers {m : Method} (hm : m ∈ p.providers markers) :
    ∃ value : ProvidedValue, m.name = some value.providerName := by
  obtain ⟨a, -, ha⟩ := exists_of_mem_providers hm
  exact ⟨a.value, (congrArg Prod.fst ha).symm⟩

theorem nodup_signature_iff :
    (((p.moduleDecl markers).methods).map Method.signature).Nodup ↔
      p.provisions.Pairwise fun a b => ¬ a.Clashes b := by
  have hprovisions : (p.provisions.map Provision.signature).Nodup ↔
      p.provisions.Pairwise fun a b => ¬ a.Clashes b := by
    rw [List.Nodup, List.pairwise_map]
    simp only [ne_eq, Provision.signature_eq_iff]
  rw [← hprovisions, ← (signatures_providers_perm markers p).nodup_iff, methods_moduleDecl,
    List.map_append, List.nodup_append]
  refine ⟨fun h => h.1, fun h => ⟨h, nodup_signature_others, ?_⟩⟩
  intro s hs t ht he
  obtain ⟨k, hk, rfl⟩ := List.mem_map.mp hs
  obtain ⟨m, hm, rfl⟩ := List.mem_map.mp ht
  obtain ⟨a, -, ha⟩ := exists_of_mem_providers hk
  exact name_ne_of_mem_others hm a.value (congrArg Prod.fst (ha.trans he))

theorem declaresOnce_moduleDecl_iff :
    (p.moduleDecl markers).DeclaresOnce ↔ p.provisions.Pairwise fun a b => ¬ a.Clashes b := by
  refine ⟨fun h => nodup_signature_iff.mp h.methods, fun h => ⟨?_, ?_, nodup_signature_iff.mpr h⟩⟩
  · simpa [moduleDecl, Function.comp_def] using nodup_name_runtime h
  · intro m hm hc
    rw [methods_moduleDecl, List.mem_append] at hm
    rcases hm with hm | hm
    · obtain ⟨a, -, ha⟩ := exists_of_mem_providers hm
      have hname : some a.value.providerName = m.name := congrArg Prod.fst ha
      simp [Method.isConstructor, ← hname] at hc
    · rw [eq_of_mem_others hm hc]
      simpa [moduleConstructor, Function.comp_def] using nodup_name_runtime h

theorem declaresOnce_builder (h : p.provisions.Pairwise fun a b => ¬ a.Clashes b) :
    p.builder.DeclaresOnce := by
  have hn := nodup_name_runtime h
  have hsetters : ((p.runtime.map p.setter).map Method.signature).Nodup := by
    have hnames : ((p.runtime.map p.setter).map Method.signature).map Prod.fst =
        (p.runtime.map ProvidedValue.name).map some := by
      simp [Method.signature, setter, Method.named, Function.comp_def]
    refine List.Nodup.of_map Prod.fst ?_
    rw [hnames]
    exact hn.map fun _ _ h => Option.some.inj h
  refine ⟨by simpa [builder, Function.comp_def] using hn, ?_, ?_⟩
  · intro m hm hc
    rcases List.mem_append.mp hm with hm | hm
    · obtain ⟨value, -, rfl⟩ := List.mem_map.mp hm
      cases hc
    · rw [List.mem_singleton.mp hm] at hc
      cases hc
  · change ((p.runtime.map p.setter ++ [p.buildMethod]).map Method.signature).Nodup
    rw [List.map_append, List.nodup_append]
    refine ⟨hsetters, List.nodup_singleton _, ?_⟩
    intro s hs t ht he
    rw [List.map_singleton, List.mem_singleton] at ht
    obtain ⟨k, hk, rfl⟩ := List.mem_map.mp hs
    obtain ⟨value, -, rfl⟩ := List.mem_map.mp hk
    -- a setter has a parameter, which `build` does not have
    have hlength := congrArg (fun s => s.2.length) (he.trans ht)
    cases hlength

end ModulePlan

/-- The module of an accepted plan and its builder declare everything once exactly when no two
methods of the container lead to clashing provisions. In a component no two provisions share the
name of a method, so there only the first letter can make names agree. -/
theorem Env.declaresOnce_iff {env : Env} {c : Container} {p : ModulePlan}
    (h : (env.plan c).result = .ok p) :
    ((p.moduleDecl env.markers).DeclaresOnce ∧ p.builder.DeclaresOnce ↔
      (env.symbols.classpath.methods c.decl).Pairwise fun m k => ∀ a b,
        (env.classify c m).result = .ok (some a) → (env.classify c k).result = .ok (some b) →
          ¬ a.Clashes b) ∧
    (c.inComponent = true → (p.provisions.map fun a => a.value.name).Nodup) := by
  refine ⟨?_, Env.nodup_name_of_inComponent h⟩
  have hmethods : (p.provisions.Pairwise fun a b => ¬ a.Clashes b) ↔
      (env.symbols.classpath.methods c.decl).Pairwise fun m k => ∀ a b,
        (env.classify c m).result = .ok (some a) → (env.classify c k).result = .ok (some b) →
          ¬ a.Clashes b := by
    obtain ⟨-, rfl⟩ := Env.plan_eq_ok h
    simp only [List.pairwise_filterMap, Env.provision?_eq_some]
    exact ⟨fun h => h.imp fun hab a b ha hb => hab a ha b hb,
      fun h => h.imp fun hab a ha b hb => hab a b ha hb⟩
  rw [← hmethods]
  constructor
  · rintro ⟨hmodule, -⟩
    exact ModulePlan.declaresOnce_moduleDecl_iff.mp hmodule
  · intro hclash
    exact ⟨ModulePlan.declaresOnce_moduleDecl_iff.mpr hclash, ModulePlan.declaresOnce_builder hclash⟩

def mixedOverloads : TypeDecl :=
  ((bareContainer "a.FooComponent").withMember
    ((Callable.method "x" "a.T").annotated (.of Markers.default.runtime))).withMember
    (((Callable.method "x" "a.T").withParameter (.of "b" "a.B")).annotated
      ((AnnotationUse.of Markers.default.injection).withValue "value" (.type ⟨"a.T"⟩)))

/-- Overloads with different strategies do not clash. -/
theorem mixedOverloads_declared_once : ∃ p,
    ((Env.single mixedOverloads).plan (.of .default mixedOverloads)).result = .ok p ∧
    p.provisions.map (fun a => a.value.providerName) = ["provideX", "provideX"] ∧
    (p.moduleDecl .default).DeclaresOnce ∧ p.builder.DeclaresOnce := by
  refine ⟨_, rfl, rfl, ?_⟩
  have hplan : ((Env.single mixedOverloads).plan (.of .default mixedOverloads)).result = .ok _ := rfl
  refine (Env.declaresOnce_iff hplan).1.mpr (List.pairwise_pair.mpr ?_)
  intro a b ha hb hclash
  cases ha
  cases hb
  cases hclash.2

def overloaded : TypeDecl :=
  ((bareContainer "a.FooComponent").withMember
    ((Callable.method "x" "a.T").annotated (.of Markers.default.runtime))).withMember
    (((Callable.method "x" "a.T").withParameter (.of "b" "a.B")).annotated
      (.of Markers.default.runtime))

/-- The plan for runtime overloads is accepted, and its module declares their name twice. -/
theorem overloads_declared_twice : ∃ p,
    ((Env.single overloaded).plan (.of .default overloaded)).result = .ok p ∧
    (p.moduleDecl .default).fields.map Field.name = ["x", "x"] ∧
    ¬ (p.moduleDecl .default).DeclaresOnce ∧ ¬ p.builder.DeclaresOnce := by
  refine ⟨_, rfl, rfl, ?_, ?_⟩
  · intro h
    have hfields := h.fields
    revert hfields
    decide
  · intro h
    have hfields := h.fields
    revert hfields
    decide

end Provisioning
