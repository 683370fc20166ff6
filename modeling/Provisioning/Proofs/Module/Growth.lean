import Provisioning.Proofs.Classpath.Growth
import Provisioning.Proofs.Module.Planning
import Provisioning.Round.Rendering

/-! # Plans on a growing classpath

A method that was accepted is classified in the same way after declarations under
new names were added: its checks only ask for subtypes, which stay subtypes, and
for a declaration that is known. So an accepted plan is the same plan, down to the
text of its file, as long as the methods that it is made from are the same.
-/

namespace Provisioning

def Symbols.extend (s : Symbols) (more : List TypeDecl) : Symbols :=
  { s with classpath := s.classpath.extend more }

def Env.extend (env : Env) (more : List TypeDecl) : Env :=
  { env with symbols := env.symbols.extend more }

section Symbols

variable {s : Symbols} {more : List TypeDecl}

theorem Symbols.lookup_extend (hnew : s.classpath.AllNew more) {name : String} {d : TypeDecl}
    (h : (s.lookup name).result = .ok (some d)) : (s.extend more).lookup name = s.lookup name := by
  have hcrash : (s.extend more).crash = s.crash := rfl
  have hpath : (s.extend more).classpath = s.classpath.extend more := rfl
  unfold lookup at h ⊢
  rw [hcrash, hpath]
  cases hc : s.crash name with
  | some message => rfl
  | none =>
    rw [hc] at h
    have hf : s.classpath.find? name = some d := Except.ok.inj h
    rw [hf, Classpath.find?_extend_of_some hnew hf]

theorem Symbols.require_extend (hnew : s.classpath.AllNew more) {t : TypeText} {d : TypeDecl}
    (h : (s.require t).result = .ok d) : (s.extend more).require t = s.require t := by
  refine Trial.bind_congr_of_ok h ?_ fun _ _ => rfl
  intro found hfound hanswer
  cases found with
  | none => cases hanswer
  | some e => exact lookup_extend hnew hfound

theorem Symbols.methods_extend {d : TypeDecl} (hfar : ∀ e ∈ more, e.key ∉ s.classpath.lookups d) :
    (s.extend more).methods d = s.methods d := by
  have hcrash : (s.extend more).crash = s.crash := rfl
  have hpath : (s.extend more).classpath = s.classpath.extend more := rfl
  rw [methods, methods, hcrash, hpath, Classpath.lookups_extend hfar, Classpath.methods_extend hfar]

end Symbols

namespace Env

variable {env : Env} {more : List TypeDecl}

theorem injected_extend (hnew : env.symbols.classpath.AllNew more) {m : Callable} {element : String}
    {t : TypeText} (h : (env.injected m element).result = .ok t) :
    (env.extend more).injected m element = env.injected m element := by
  unfold injected at h ⊢
  dsimp only [extend, Symbols.extend] at h ⊢
  cases hp : m.typeProperty env.markers.injection env.markers.implementationProperty with
  | error problem => rfl
  | ok implementation =>
    rw [hp] at h
    by_cases hs : env.symbols.classpath.isSubtype implementation m.returns = true
    · simp only [hs, Classpath.isSubtype_extend hnew hs]
    · simp only [hs] at h
      cases h

theorem constructed_extend (hnew : env.symbols.classpath.AllNew more) {m : Callable}
    {element : String} {found : TypeText × List Variable}
    (h : (env.constructed m element).result = .ok found) :
    (env.extend more).constructed m element = env.constructed m element := by
  have himplementation : (env.extend more).implementation m = env.implementation m := rfl
  unfold constructed at h ⊢
  rw [himplementation]
  cases hi : env.implementation m with
  | error problem => rfl
  | ok implementation =>
    simp only [hi] at h
    by_cases hs : env.symbols.classpath.isSubtype implementation m.returns = true
    · have hs' : (env.extend more).symbols.classpath.isSubtype implementation m.returns = true :=
        Classpath.isSubtype_extend hnew hs
      simp only [hs, hs', Bool.not_true, Bool.false_eq_true, if_false] at h ⊢
      exact Trial.bind_congr_of_ok h (fun _ hd _ => Symbols.require_extend hnew hd) fun _ _ => rfl
    · simp only [hs, Bool.not_false, if_true] at h
      cases h

theorem provision_extend (hnew : env.symbols.classpath.AllNew more) {strategy : Strategy}
    {provided : ProvidedValue} {m : Callable} {element : String} {a : Provision}
    (h : (env.provision strategy provided m element).result = .ok a) :
    (env.extend more).provision strategy provided m element =
      env.provision strategy provided m element := by
  cases strategy with
  | runtime => rfl
  | injection =>
    exact Trial.bind_congr_of_ok h (fun _ ht _ => injected_extend hnew ht) fun _ _ => rfl
  | newInstance =>
    exact Trial.bind_congr_of_ok h (fun _ hf _ => constructed_extend hnew hf) fun _ _ => rfl

theorem classify_extend (hnew : env.symbols.classpath.AllNew more) {c : Container} {m : Callable}
    {found : Option Provision} (h : (env.classify c m).result = .ok found) :
    (env.extend more).classify c m = env.classify c m := by
  rcases env.classify_cases c m with hnone | ⟨v, hv⟩ | ⟨s, hs⟩
  · have hnone' : (env.extend more).markers.strategiesOf m = [] := hnone
    rw [classify_of_unmarked hnone, classify_of_unmarked hnone']
  · rw [hv] at h
    cases h
  · have hs' : (env.extend more).Passes c m s := ⟨hs.only, hs.returns, hs.parameters⟩
    rw [hs.classify_eq] at h ⊢
    rw [hs'.classify_eq]
    refine Trial.bind_congr_of_ok h (fun _ _ _ => rfl) fun _ h => ?_
    refine Trial.bind_congr_of_ok h (fun _ _ _ => rfl) fun _ h => ?_
    exact Trial.bind_congr_of_ok h (fun _ ha _ => provision_extend hnew ha) fun _ _ => rfl

theorem plan_extend (hnew : env.symbols.classpath.AllNew more) {c : Container}
    (hfar : ∀ e ∈ more, e.key ∉ env.symbols.classpath.lookups c.decl) {p : ModulePlan}
    (h : (env.plan c).result = .ok p) : (env.extend more).plan c = env.plan c := by
  refine Trial.bind_congr_of_ok h (fun _ _ _ => Symbols.methods_extend hfar) fun methods h => ?_
  refine Trial.bind_congr_of_ok h (fun found hfound _ => ?_) fun _ _ => rfl
  refine Trial.forAll_congr_of_ok hfound fun m _ o ho => ?_
  rw [classify_extend hnew (Trial.within_eq_ok.mp ho)]

/-- Declarations are added to the classpath under new names, and neither the container nor any of its
known supertypes names one of them as a supertype. Then an accepted plan of the container is accepted
again and is the same one, with the same events, and so is the file that is rendered from it. -/
theorem plan_on_growing_classpath (env : Env) (c : Container) (p : ModulePlan)
    (more : List TypeDecl) (hp : (env.plan c).result = .ok p)
    (hnew : ∀ d ∈ more, d.key ∉ env.symbols.classpath.types.map TypeDecl.key)
    (hfar : ∀ d ∈ more, ∀ e ∈ env.symbols.classpath.ancestry c.decl, ∀ s ∈ e.supertypes,
      s.erasure ≠ d.key) :
    ((env.extend more).plan c).result = .ok p ∧
      (env.extend more).plan c = env.plan c ∧
      (env.extend more).renderOne c = env.renderOne c ∧
      ((env.extend more).renderOne c).result =
        .ok ⟨p.moduleClass.canonical, (p.sourceFile env.markers).path,
          (p.sourceFile env.markers).text⟩ := by
  have hlookups : ∀ d ∈ more, d.key ∉ env.symbols.classpath.lookups c.decl := by
    intro d hd hkey
    obtain ⟨e, he, hn⟩ := List.mem_flatMap.mp hkey
    obtain ⟨s, hs, hse⟩ := List.mem_map.mp hn
    exact hfar d hd e he s hs hse
  have hplan : (env.extend more).plan c = env.plan c := plan_extend hnew hlookups hp
  have hrender : (env.extend more).renderOne c = env.renderOne c := by
    rw [renderOne, renderOne, hplan]
    rfl
  refine ⟨hplan ▸ hp, hplan, hrender, ?_⟩
  rw [hrender, renderOne, Trial.bind_of_ok _ (Trial.within_eq_ok.mpr hp)]
  obtain ⟨-, rfl⟩ := plan_eq_ok hp
  rfl

end Env

def loaderContainer : TypeDecl :=
  ((bareContainer "a.FooComponent").implementing "x.Gone").withMember
    ((Callable.method "loader" "a.Loader").annotated
      ((AnnotationUse.of Markers.default.newInstance).withValue "value" (.type ⟨"a.LocalLoader"⟩)))

def loaderClasspath : Classpath := .ofList
  [loaderContainer, .ofKind .interface "a.Loader",
    (((TypeDecl.ofKind .class "a.LocalLoader").implementing "b.Mid").implementing
      "a.Loader").withMember .constructor]

def midDeclared : List TypeDecl := [(TypeDecl.ofKind .interface "b.Mid").implementing "a.Extra"]

theorem loader_planned_alike : ∃ p,
    ((Env.mk (.ofClasspath loaderClasspath) .default).plan (.of .default loaderContainer)).result =
      .ok p ∧ p.provisions.length = 1 ∧
    loaderClasspath.isSubtype ⟨"a.LocalLoader"⟩ ⟨"a.Extra"⟩ = false ∧
    (loaderClasspath.extend midDeclared).isSubtype ⟨"a.LocalLoader"⟩ ⟨"a.Extra"⟩ = true ∧
    (((Env.mk (.ofClasspath loaderClasspath) .default).extend midDeclared).plan
      (.of .default loaderContainer)).result = .ok p := by
  refine ⟨_, rfl, rfl, by decide, by decide, ?_⟩
  exact (Env.plan_on_growing_classpath _ _ _ midDeclared rfl (by decide) (by decide)).1

end Provisioning
