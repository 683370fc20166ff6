import Mathlib.Data.List.Nodup
import Provisioning.ModulePlan
import Provisioning.Proofs.Trial

/-! # Accepted plans

The methods of a container have distinct signatures. If none of them is rejected,
the plan holds one provision for each of them that carries a strategy marker, and
the common part of a provision is read off its method alone.
-/

namespace Provisioning

namespace Classpath

/-- Of the methods that are kept, no two have one signature, and none has a signature that was
seen before. -/
theorem dropOverridden_signatures (seen : List (String × List TypeText)) (members : List Member) :
    (((dropOverridden seen members).filterMap Member.method?).map Callable.signature).Nodup ∧
      ∀ m ∈ (dropOverridden seen members).filterMap Member.method?, m.signature ∉ seen := by
  fun_induction dropOverridden seen members with
  | case1 seen => exact ⟨List.nodup_nil, fun _ h => absurd h List.not_mem_nil⟩
  | case2 seen m rest h ih => exact ih
  | case3 seen m rest h ih =>
    obtain ⟨hn, hs⟩ := ih
    have hm : m.signature ∉ seen := by simpa using h
    rw [List.filterMap_cons_some (show (Member.method m).method? = some m from rfl)]
    refine ⟨?_, ?_⟩
    · refine List.nodup_cons.mpr ⟨?_, hn⟩
      intro hmem
      obtain ⟨k, hk, he⟩ := List.mem_map.mp hmem
      exact hs k hk (he ▸ List.mem_cons_self)
    · intro k hk
      rcases List.mem_cons.mp hk with rfl | hk
      · exact hm
      · exact fun h => hs k hk (List.mem_cons_of_mem _ h)
  | case4 seen member rest h ih =>
    cases member with
    | method m => exact absurd rfl (h m)
    | constructor m => exact ih
    | field v => exact ih

theorem nodup_signature_methods (cp : Classpath) (d : TypeDecl) :
    ((cp.methods d).map Callable.signature).Nodup := (dropOverridden_signatures [] _).1

end Classpath

theorem Symbols.methods_eq_ok {s : Symbols} {d : TypeDecl} {methods : List Callable}
    (h : (s.methods d).result = .ok methods) : methods = s.classpath.methods d := by
  unfold Symbols.methods at h
  split at h
  · cases h
  · cases h
    rfl

namespace Env

variable {env : Env} {c : Container}

def provision? (env : Env) (c : Container) (m : Callable) : Option Provision :=
  match (env.classify c m).result with
  | .ok found => found
  | .error _ => none

theorem provision?_eq_some {m : Callable} {a : Provision} :
    env.provision? c m = some a ↔ (env.classify c m).result = .ok (some a) := by
  unfold provision?
  cases (env.classify c m).result with
  | ok found => simp
  | error stop => simp

theorem provision_eq_ok {strategy : Strategy} {provided : ProvidedValue} {m : Callable}
    {element : String} {a : Provision}
    (h : (env.provision strategy provided m element).result = .ok a) :
    a.value = provided ∧ a.strategy = strategy := by
  cases strategy with
  | runtime =>
    cases h
    exact ⟨rfl, rfl⟩
  | injection =>
    obtain ⟨implementation, -, h⟩ := Trial.bind_eq_ok.mp h
    cases h
    exact ⟨rfl, rfl⟩
  | newInstance =>
    obtain ⟨found, -, h⟩ := Trial.bind_eq_ok.mp h
    cases h
    exact ⟨rfl, rfl⟩

theorem result_warnNullable (env : Env) (m : Callable) (element : String) :
    (env.warnNullable m element).result = .ok () := by
  unfold warnNullable
  split <;> rfl

section Rules

variable {m : Callable} {s : Strategy} {a : Provision}

/-- The method carries one strategy marker and keeps the rules that all strategies share. -/
structure Passes (env : Env) (c : Container) (m : Callable) (s : Strategy) : Prop where
  only : env.markers.strategiesOf m = [s]
  returns : m.returns.isVoid = false
  parameters : c.inComponent = true → m.parameters = []

theorem classify_of_unmarked (h : env.markers.strategiesOf m = []) :
    env.classify c m = Trial.pure none := by
  unfold classify
  dsimp only
  rw [h]

theorem Passes.classify_eq (h : env.Passes c m s) : env.classify c m =
    env.warnNullable m (c.element m) >>= fun _ =>
      Trial.record (.classified (c.element m) s (ProvidedValue.of env.markers m).nullable) >>=
        fun _ => env.provision s (ProvidedValue.of env.markers m) m (c.element m) >>=
          fun a => Trial.pure (some a) := by
  have hno : (c.inComponent && !m.parameters.isEmpty) = false := by
    cases hc : c.inComponent with
    | false => rfl
    | true => simp [h.parameters hc]
  simp only [classify, h.only, h.returns, hno, Bool.false_eq_true, if_false]
  rfl

/-- A method that does not pass is unmarked or violates a rule. -/
theorem classify_cases (env : Env) (c : Container) (m : Callable) :
    env.markers.strategiesOf m = [] ∨
      (∃ v, env.classify c m = .fail (.violation v (c.element m))) ∨ ∃ s, env.Passes c m s := by
  unfold classify
  dsimp only
  split
  · rename_i hs
    exact .inl hs
  · rename_i s hs
    split
    · exact .inr (.inl ⟨_, rfl⟩)
    · rename_i hvoid
      split
      · exact .inr (.inl ⟨_, rfl⟩)
      · rename_i hparameters
        refine .inr (.inr ⟨s, hs, Bool.not_eq_true _ ▸ hvoid, ?_⟩)
        intro hc
        simpa [hc] using hparameters
  · exact .inr (.inl ⟨_, rfl⟩)

theorem Passes.classify_eq_ok (h : env.Passes c m s) {found : Option Provision} :
    (env.classify c m).result = .ok found ↔ ∃ a, found = some a ∧
      (env.provision s (ProvidedValue.of env.markers m) m (c.element m)).result = .ok a := by
  rw [h.classify_eq, Trial.bind_of_ok _ (result_warnNullable env m _),
    Trial.bind_of_ok _ (Trial.result_record _), Trial.bind_eq_ok]
  constructor
  · rintro ⟨a, ha, hfound⟩
    cases hfound
    exact ⟨a, rfl, ha⟩
  · rintro ⟨a, rfl, ha⟩
    exact ⟨a, ha, rfl⟩

theorem classify_eq_some_iff : (env.classify c m).result = .ok (some a) ↔
    env.Passes c m a.strategy ∧
      (env.provision a.strategy (ProvidedValue.of env.markers m) m (c.element m)).result =
        .ok a := by
  constructor
  · intro h
    rcases env.classify_cases c m with hnone | ⟨v, hv⟩ | ⟨s, hs⟩
    · rw [classify_of_unmarked hnone] at h
      cases h
    · rw [hv] at h
      cases h
    · obtain ⟨b, hb, hprovision⟩ := hs.classify_eq_ok.mp h
      cases hb
      obtain ⟨-, rfl⟩ := provision_eq_ok hprovision
      exact ⟨hs, hprovision⟩
  · rintro ⟨hs, hprovision⟩
    exact hs.classify_eq_ok.mpr ⟨a, rfl, hprovision⟩

theorem classify_eq_none_iff :
    (env.classify c m).result = .ok none ↔ env.markers.strategiesOf m = [] := by
  constructor
  · intro h
    rcases env.classify_cases c m with hnone | ⟨v, hv⟩ | ⟨s, hs⟩
    · exact hnone
    · rw [hv] at h
      cases h
    · obtain ⟨a, ha, -⟩ := hs.classify_eq_ok.mp h
      cases ha
  · intro h
    rw [classify_of_unmarked h]
    rfl

end Rules

theorem classify_eq_some {m : Callable} {a : Provision}
    (h : (env.classify c m).result = .ok (some a)) :
    a.value = ProvidedValue.of env.markers m ∧ env.markers.strategiesOf m = [a.strategy] ∧
      (c.inComponent = true → m.parameters = []) := by
  obtain ⟨hs, hb⟩ := classify_eq_some_iff.mp h
  exact ⟨(provision_eq_ok hb).1, hs.only, hs.parameters⟩

theorem forall₂_classify_iff {methods : List Callable} {found : List (Option Provision)} :
    List.Forall₂ (fun m o => (env.classify c m).result = .ok o) methods found ↔
      (∀ m ∈ methods, ∃ o, (env.classify c m).result = .ok o) ∧
        found = methods.map (env.provision? c) := by
  induction methods generalizing found with
  | nil => cases found <;> simp
  | cons m rest ih =>
    constructor
    · intro h
      cases h with
      | cons hm hrest =>
        obtain ⟨hall, rfl⟩ := ih.mp hrest
        refine ⟨List.forall_mem_cons.mpr ⟨⟨_, hm⟩, hall⟩, ?_⟩
        simp [provision?, hm]
    · rintro ⟨h, rfl⟩
      obtain ⟨⟨o, ho⟩, hall⟩ := List.forall_mem_cons.mp h
      refine .cons ?_ (ih.mpr ⟨hall, rfl⟩)
      simp [provision?, ho]

theorem plan_eq_ok {p : ModulePlan} (h : (env.plan c).result = .ok p) :
    (∀ m ∈ env.symbols.classpath.methods c.decl, ∃ o, (env.classify c m).result = .ok o) ∧
      p = ⟨c, c.moduleClass,
        (env.symbols.classpath.methods c.decl).filterMap (env.provision? c)⟩ := by
  obtain ⟨methods, hm, h⟩ := Trial.bind_eq_ok.mp h
  obtain ⟨found, hf, h⟩ := Trial.bind_eq_ok.mp h
  obtain ⟨-, -, h⟩ := Trial.bind_eq_ok.mp h
  cases Symbols.methods_eq_ok hm
  simp only [Trial.forAll_eq_ok, Trial.within_eq_ok] at hf
  obtain ⟨hall, rfl⟩ := forall₂_classify_iff.mp hf
  cases h
  refine ⟨hall, ?_⟩
  rw [List.filterMap_map]
  rfl

theorem nodup_name_of_inComponent {p : ModulePlan} (h : (env.plan c).result = .ok p)
    (hc : c.inComponent = true) : (p.provisions.map fun a => a.value.name).Nodup := by
  obtain ⟨-, rfl⟩ := plan_eq_ok h
  have hn := Classpath.nodup_signature_methods env.symbols.classpath c.decl
  rw [List.Nodup, List.pairwise_map] at hn ⊢
  rw [List.pairwise_filterMap]
  refine hn.imp ?_
  intro m k hmk a ha b hb he
  obtain ⟨hva, -, hpa⟩ := classify_eq_some (provision?_eq_some.mp ha)
  obtain ⟨hvb, -, hpb⟩ := classify_eq_some (provision?_eq_some.mp hb)
  rw [hva, hvb] at he
  apply hmk
  -- neither method has parameters, so their names make the whole difference
  rw [Callable.signature, Callable.signature, hpa hc, hpb hc]
  exact congrArg (·, []) he

def single (d : TypeDecl) : Env := ⟨.ofClasspath (.ofList [d]), .default⟩

end Env

def bareContainer (name : String) : TypeDecl :=
  (TypeDecl.ofKind .interface name).annotated (.of Markers.default.module)

end Provisioning
