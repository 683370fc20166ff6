import Provisioning.Proofs.Module.Acceptance
import Provisioning.Proofs.Module.RuntimeValues

/-! # Providers

Every method with a strategy marker leads to one provision, and every provision to one
provider. The provisions stand in the order of the methods, and the providers in the
order of the provisions within each strategy. What a provider takes and returns is told
from its provision alone.
-/

namespace Provisioning

open Source

namespace Source

structure Parameter.Copies (x : Parameter) (v : Variable) : Prop where
  name : x.name = v.name
  type : x.type = .parse v.type.text
  marks : x.marks = v.annotations.map Mark.ofUse

theorem Parameter.map_name_of_copies {parameters : List Parameter} {vs : List Variable}
    (h : List.Forall₂ Parameter.Copies parameters vs) :
    parameters.map Parameter.name = vs.map Variable.name := by
  rw [← List.forall₂_eq_eq_eq, List.forall₂_map_left_iff, List.forall₂_map_right_iff]
  exact h.imp fun _ _ hcopies => hcopies.name

namespace Method

/-- What the method has as a provider of the value, whatever the strategy is. -/
structure Provides (k : Method) (markers : Markers) (v : ProvidedValue) : Prop where
  modifiers : k.modifiers = .ofList [.public]
  name : k.name = some v.providerName
  returns : k.returns = some (.parse v.returns.text)
  marks : k.marks = Mark.of (.guess markers.provides) :: v.annotations.map Mark.ofUse

/-- How the method obtains what it returns, in a class with these fields. -/
def Obtains (k : Method) (fields : List Field) : Provision → Prop
  | .runtime v => k.parameters = [] ∧
      ∃ f ∈ fields, f.Carries v ∧ k.statements = [Code.text ("return this." ++ f.name)]
  | .injected v t => ∃ x, k.parameters = [x] ∧ x.name = v.name ∧ x.type = .parse t.text ∧
      x.marks = v.qualifiers.map Mark.ofUse ∧ k.statements = [Code.text ("return " ++ x.name)]
  | .constructed _ t parameters => List.Forall₂ Parameter.Copies k.parameters parameters ∧
      ∃ call, k.statements = [call] ∧
        call.ReturnsNew (.parse t.text) (k.parameters.map Parameter.name)

end Method

end Source

theorem forall₂_filter_filterMap {α β : Type} {R : α → β → Prop} {kept : α → Bool}
    {answer : α → Option β} {l : List α}
    (h : ∀ a ∈ l, (kept a = true ∧ ∃ b, answer a = some b ∧ R a b) ∨
      (kept a = false ∧ answer a = none)) :
    List.Forall₂ R (l.filter kept) (l.filterMap answer) := by
  induction l with
  | nil => exact .nil
  | cons a rest ih =>
    obtain ⟨ha, hrest⟩ := List.forall_mem_cons.mp h
    rcases ha with ⟨hkept, b, hb, hab⟩ | ⟨hkept, hnone⟩
    · rw [List.filter_cons_of_pos hkept, List.filterMap_cons_some hb]
      exact .cons hab (ih hrest)
    · rw [List.filter_cons_of_neg (by simp [hkept]), List.filterMap_cons_none hnone]
      exact ih hrest

theorem Markers.any_isAnnotated_eq_false_iff {markers : Markers} {m : Callable} :
    markers.strategies.any m.isAnnotated = false ↔ markers.strategiesOf m = [] := by
  simp [strategies, strategiesOf, marker, List.filter_eq_nil_iff]

/-- The provisions of an accepted plan are those of the marked methods, in order. -/
theorem Env.forall₂_provisions {env : Env} {c : Container} {p : ModulePlan}
    (h : (env.plan c).result = .ok p) :
    List.Forall₂ (fun m a => (env.classify c m).result = .ok (some a) ∧
        a.value.Describes env.markers m ∧ a.Holds env.symbols.classpath env.markers m)
      ((env.symbols.classpath.methods c.decl).filter fun m =>
        env.markers.strategies.any m.isAnnotated)
      p.provisions := by
  obtain ⟨hall, rfl⟩ := Env.plan_eq_ok h
  apply forall₂_filter_filterMap
  intro m hm
  obtain ⟨found, hfound⟩ := hall m hm
  cases found with
  | none =>
    refine .inr ⟨Markers.any_isAnnotated_eq_false_iff.mpr (Env.classify_eq_none_iff.mp hfound), ?_⟩
    rw [Env.provision?, hfound]
  | some a =>
    obtain ⟨hpasses, hprovision⟩ := Env.classify_eq_some_iff.mp hfound
    refine .inl ⟨?_, a, Env.provision?_eq_some.mpr hfound, hfound, ?_,
      Env.holds_of_provision hprovision⟩
    · rw [← Bool.not_eq_false, Markers.any_isAnnotated_eq_false_iff, hpasses.only]
      exact List.cons_ne_nil _ _
    · rw [(Env.provision_eq_ok hprovision).1]
      exact ProvidedValue.describes_of _ _

namespace Provision

def provider (markers : Markers) : Provision → Method
  | .runtime v => ModulePlan.runtimeProvider markers v
  | .injected v t => ModulePlan.injectedProvider markers v t
  | .constructed v t parameters => ModulePlan.constructedProvider markers v t parameters

theorem provider_provides (markers : Markers) (a : Provision) :
    (a.provider markers).Provides markers a.value := by
  cases a <;> exact ⟨rfl, rfl, rfl, rfl⟩

end Provision

namespace ModulePlan

variable (p : ModulePlan) (markers : Markers)

def ofStrategy (s : Strategy) : List Provision := p.provisions.filter (·.strategy = s)

theorem provider_obtains {a : Provision} (ha : a ∈ p.provisions) :
    (a.provider markers).Obtains (p.moduleDecl markers).fields a := by
  cases a with
  | runtime v =>
    have hv : v ∈ p.runtime := List.mem_filterMap.mpr ⟨_, ha, rfl⟩
    exact ⟨rfl, _, List.mem_map_of_mem hv, ⟨rfl, rfl⟩, rfl⟩
  | injected v t => exact ⟨_, rfl, rfl, rfl, rfl, rfl⟩
  | constructed v t parameters =>
    refine ⟨forall₂_map_self fun _ => ⟨rfl, rfl, rfl⟩, _, rfl, ?_⟩
    simp [Code.ReturnsNew, Provision.provider, constructedProvider, Function.comp_def]

theorem map_filterMap_provisions {β : Type} {s : Strategy} {pick : Provision → Option β}
    {make : β → Method} (h : ∀ a : Provision,
      (decide (a.strategy = s) = true ∧ ∃ b, pick a = some b ∧ a.provider markers = make b) ∨
      (decide (a.strategy = s) = false ∧ pick a = none)) :
    (p.provisions.filterMap pick).map make = (p.ofStrategy s).map (Provision.provider markers) := by
  -- a pairwise equality of two lists is their equality
  have hgroup := forall₂_filter_filterMap (l := p.provisions) fun a _ => h a
  rw [← List.forall₂_map_right_iff, ← List.forall₂_map_left_iff, List.forall₂_eq_eq_eq] at hgroup
  exact hgroup.symm

/-- The providers are grouped by strategy. -/
theorem providers_eq : p.providers markers =
    (p.ofStrategy .newInstance).map (Provision.provider markers) ++
      (p.ofStrategy .injection).map (Provision.provider markers) ++
      (p.ofStrategy .runtime).map (Provision.provider markers) := by
  unfold providers constructed injected runtime
  rw [p.map_filterMap_provisions markers (s := .newInstance),
    p.map_filterMap_provisions markers (s := .injection),
    p.map_filterMap_provisions markers (s := .runtime)]
  · intro a
    cases a with
    | runtime v => exact .inl ⟨rfl, _, rfl, rfl⟩
    | injected v t => exact .inr ⟨rfl, rfl⟩
    | constructed v t parameters => exact .inr ⟨rfl, rfl⟩
  · intro a
    cases a with
    | runtime v => exact .inr ⟨rfl, rfl⟩
    | injected v t => exact .inl ⟨rfl, _, rfl, rfl⟩
    | constructed v t parameters => exact .inr ⟨rfl, rfl⟩
  · intro a
    cases a with
    | runtime v => exact .inr ⟨rfl, rfl⟩
    | injected v t => exact .inr ⟨rfl, rfl⟩
    | constructed v t parameters => exact .inl ⟨rfl, _, rfl, rfl⟩

theorem forall₂_ofStrategy (s : Strategy) :
    List.Forall₂ (fun k a => k.Provides markers a.value ∧
        k.Obtains (p.moduleDecl markers).fields a)
      ((p.ofStrategy s).map (Provision.provider markers)) (p.ofStrategy s) := by
  refine List.forall₂_map_left_iff.mpr (List.forall₂_same.mpr fun a ha => ?_)
  exact ⟨a.provider_provides markers, p.provider_obtains markers (List.mem_of_mem_filter ha)⟩

theorem filter_not_isConstructor_methods :
    (p.moduleDecl markers).methods.filter (fun k => !k.isConstructor) =
      p.providers markers ++ p.builderMethod :: if p.hasCreate then [p.createMethod] else [] := by
  rw [methods_moduleDecl, List.filter_append]
  congr 1
  · rw [List.filter_eq_self]
    intro k hk
    obtain ⟨value, hname⟩ := name_of_mem_providers hk
    simp [Method.isConstructor, hname]
  · unfold others
    split <;> rfl

end ModulePlan

/-- The provisions of an accepted plan are those of the marked methods. The methods of the module, its
constructor aside, are a provider for each provision, grouped by strategy, and the methods for the
builder and for a module without values. -/
theorem Env.providers_of_marked {env : Env} {c : Container} {p : ModulePlan}
    (h : (env.plan c).result = .ok p) :
    let decl := p.moduleDecl env.markers
    let provides := fun k (a : Provision) =>
      k.Provides env.markers a.value ∧ k.Obtains decl.fields a
    List.Forall₂ (fun m a => (env.classify c m).result = .ok (some a) ∧
        a.value.Describes env.markers m ∧ a.Holds env.symbols.classpath env.markers m)
      ((env.symbols.classpath.methods c.decl).filter fun m =>
        env.markers.strategies.any m.isAnnotated)
      p.provisions ∧
    ∃ constructed injected runtime rest,
      decl.methods.filter (fun k => !k.isConstructor) =
        constructed ++ injected ++ runtime ++ rest ∧
      List.Forall₂ provides constructed (p.provisions.filter (·.strategy = .newInstance)) ∧
      List.Forall₂ provides injected (p.provisions.filter (·.strategy = .injection)) ∧
      List.Forall₂ provides runtime (p.provisions.filter (·.strategy = .runtime)) ∧
      rest.map Method.signature =
        (some "builder", []) :: if p.hasCreate then [(some "create", [])] else [] := by
  refine ⟨Env.forall₂_provisions h, _, _, _,
    p.builderMethod :: if p.hasCreate then [p.createMethod] else [], ?_,
    p.forall₂_ofStrategy env.markers .newInstance, p.forall₂_ofStrategy env.markers .injection,
    p.forall₂_ofStrategy env.markers .runtime, ?_⟩
  · rw [← ModulePlan.providers_eq]
    exact p.filter_not_isConstructor_methods env.markers
  · split <;> rfl

def shopComponent : TypeDecl :=
  ((((bareContainer "a.ShopComponent").withMember
    ((Callable.method "clock" "a.Clock").annotated (.of Markers.default.runtime))).withMember
    (.method "name" "java.lang.String")).withMember
    (((Callable.method "cart" "a.Cart").annotated (.of "a.Scoped")).annotated
      (.of Markers.default.newInstance))).withMember
    (((Callable.method "store" "a.Store").withParameter
        ((Variable.of "s" "a.Store").annotated (.of "a.Main"))).annotated
      ((AnnotationUse.of Markers.default.injection).withValue "value" (.type ⟨"a.Store"⟩)))

def shop : Env where
  symbols := .ofClasspath (.ofList [shopComponent,
    (TypeDecl.ofKind .class "a.Cart").withMember
      ((Callable.constructor.withParameter (.of "clock" "a.Clock")).withParameter
        ((Variable.of "limit" "int").annotated (.of "a.Limit")))])
  markers := .default

theorem shop_provided : ∃ p cart store clock rest,
    (shop.plan (.of .default shopComponent)).result = .ok p ∧
    p.provisions.map Provision.strategy = [.runtime, .newInstance, .injection] ∧
    (p.moduleDecl .default).methods.filter (fun k => !k.isConstructor) =
      cart :: store :: clock :: rest ∧
    cart.name = some "provideCart" ∧
    cart.marks = [.of (.guess Markers.default.provides), .of (.guess "a.Scoped")] ∧
    cart.parameters.map Parameter.name = ["clock", "limit"] ∧
    cart.statements =
      [[.text "return new ", .type (.class ⟨"a", "Cart", []⟩), .text "(clock, limit)"]] ∧
    store.parameters.map Parameter.name = ["store"] ∧
    clock.statements = [Code.text "return this.clock"] ∧
    rest.map Method.signature = [(some "builder", [])] := by
  have hplan : (shop.plan (.of .default shopComponent)).result = .ok _ := rfl
  obtain ⟨-, constructed, injected, runtime, rest, hmethods, hconstructed, hinjected, hruntime,
    hrest⟩ := Env.providers_of_marked hplan
  obtain ⟨cart, cs, hcart, hcs, rfl⟩ := List.forall₂_cons_right_iff.mp hconstructed
  obtain ⟨store, ss, hstore, hss, rfl⟩ := List.forall₂_cons_right_iff.mp hinjected
  obtain ⟨clock, ks, hclock, hks, rfl⟩ := List.forall₂_cons_right_iff.mp hruntime
  cases hcs
  cases hss
  cases hks
  have hnames := Parameter.map_name_of_copies hcart.2.1
  refine ⟨_, cart, store, clock, rest, hplan, rfl, hmethods, hcart.1.name, hcart.1.marks, ?_, ?_,
    ?_, ?_, hrest⟩
  · exact hnames
  · obtain ⟨call, hcall, hnew⟩ := hcart.2.2
    rw [hcall, hnew, hnames]
    rfl
  · obtain ⟨x, hx, hname, -⟩ := hstore.2
    rw [hx]
    exact congrArg (fun n => [n]) hname
  · obtain ⟨-, f, -, hf, hstatement⟩ := hclock.2
    rw [hstatement, hf.name]
    rfl

end Provisioning
