import Provisioning.Proofs.Module.Planning
import Provisioning.Round.Rendering

/-! # Rejected methods

A method is rejected by a rule or a property, which is held against the method
itself, or because the implementation to construct is not declared. A module is
rendered unless a look-up crashes or there is a first rejected method, and that
method's failure leaves the planning with two frames around it.
-/

namespace Provisioning

open Trial

theorem Symbols.require_eq_failed {s : Symbols} {t : TypeText} {f : Failure}
    (h : (s.require t).result = .error (.failed f)) :
    f = .of (.unknownType t.text) ∧ s.classpath.find? t.erasure = none := by
  have hlookup : (s.lookup t.erasure).result = .ok (s.classpath.find? t.erasure) ∨
      ∃ message, (s.lookup t.erasure).result = .error (.crashed message) := by
    unfold lookup
    cases s.crash t.erasure with
    | none => exact .inl rfl
    | some message => exact .inr ⟨message, rfl⟩
  rcases bind_eq_error.mp h with h | ⟨found, hfound, h⟩
  · rcases hlookup with hok | ⟨message, hcrash⟩
    · rw [hok] at h
      cases h
    · rw [hcrash] at h
      cases h
  · cases found with
    | some d => cases h
    | none =>
      cases h
      refine ⟨rfl, ?_⟩
      rcases hlookup with hok | ⟨message, hcrash⟩
      · rw [hok] at hfound
        exact Except.ok.inj hfound
      · rw [hcrash] at hfound
        cases hfound

theorem Symbols.methods_ends (s : Symbols) (d : TypeDecl) :
    (s.methods d).result = .ok (s.classpath.methods d) ∨
      ∃ message, (s.methods d).result = .error (.crashed message) := by
  unfold methods
  split
  · exact .inr ⟨_, rfl⟩
  · exact .inl rfl

namespace Env

variable {env : Env} {c : Container} {m : Callable}

/-- The method is classified into a provision, or has no strategy marker. -/
def Admits (env : Env) (c : Container) (m : Callable) : Prop :=
  ∃ found, (env.classify c m).result = .ok found

def Rejects (env : Env) (c : Container) (m : Callable) (f : Failure) : Prop :=
  (env.classify c m).result = .error (.failed f)

theorem Admits.not_rejects {f : Failure} (h : env.Admits c m) : ¬ env.Rejects c m f := by
  obtain ⟨found, hfound⟩ := h
  intro hf
  rw [Rejects, hfound] at hf
  cases hf

def remarks (env : Env) (c : Container) (m : Callable) : List Diagnostic :=
  diagnostics (env.classify c m).events

/-- The ways to reject a method: a rule or a property, either held against the method, or the
implementation to construct, which is not declared. -/
inductive Rejection (env : Env) (c : Container) (m : Callable) : Failure → Prop
  | rule (v : Violation) : Rejection env c m (.of (.violation v (some (c.element m))))
  | property (p : PropertyProblem) : Rejection env c m (.of (.property p (some (c.element m))))
  | undeclared (t : TypeText) (ht : env.implementation m = .ok t)
      (hd : env.symbols.classpath.find? t.erasure = none) :
      Rejection env c m (.of (.unknownType t.text))

theorem rejection_of_injected {f : Failure}
    (h : (env.injected m (c.element m)).result = .error (.failed f)) : env.Rejection c m f := by
  unfold injected at h
  dsimp only at h
  split at h
  · cases h
    exact .property _
  · split at h
    · cases h
    · cases h
      exact .rule _

theorem rejection_of_constructed {f : Failure}
    (h : (env.constructed m (c.element m)).result = .error (.failed f)) : env.Rejection c m f := by
  unfold constructed at h
  dsimp only at h
  split at h
  · cases h
    exact .property _
  · rename_i implementation hi
    split at h
    · cases h
      exact .rule _
    · rcases bind_eq_error.mp h with h | ⟨decl, -, h⟩
      · obtain ⟨rfl, hd⟩ := Symbols.require_eq_failed h
        exact .undeclared implementation hi hd
      · split at h
        · cases h
          exact .rule _
        · split at h
          · cases h
          · cases h
            exact .rule _
          · cases h
            exact .rule _

theorem rejection_of_provision {strategy : Strategy} {provided : ProvidedValue} {f : Failure}
    (h : (env.provision strategy provided m (c.element m)).result = .error (.failed f)) :
    env.Rejection c m f := by
  cases strategy with
  | runtime => cases h
  | injection =>
    rcases bind_eq_error.mp h with h | ⟨_, -, h⟩
    · exact rejection_of_injected h
    · cases h
  | newInstance =>
    rcases bind_eq_error.mp h with h | ⟨_, -, h⟩
    · exact rejection_of_constructed h
    · cases h

theorem Rejects.rejection {f : Failure} (h : env.Rejects c m f) : env.Rejection c m f := by
  unfold Rejects at h
  rcases env.classify_cases c m with hnone | ⟨v, hv⟩ | ⟨s, hs⟩
  · rw [classify_of_unmarked hnone] at h
    cases h
  · rw [hv] at h
    cases h
    exact .rule v
  · rw [hs.classify_eq, bind_of_ok _ (result_warnNullable env m _),
      bind_of_ok _ (result_record _)] at h
    rcases bind_eq_error.mp h with h | ⟨_, -, h⟩
    · exact rejection_of_provision h
    · cases h

/-- A failure of a method on its way out of the planning of its module. -/
def planningFailure (c : Container) (m : Callable) (f : Failure) : Failure :=
  (f.within (.classify (c.element m))).within (.plan c.qualifiedName)

inductive RenderEnds (env : Env) (c : Container) : Prop
  | crashed (message : Option String)
      (h : (env.renderOne c).result = .error (.crashed message))
  | rendered (file : OutputFile) (h : (env.renderOne c).result = .ok file)
      (accepts : ∀ m ∈ env.symbols.classpath.methods c.decl, env.Admits c m)
      (remarks : diagnostics (env.renderOne c).events =
        (env.symbols.classpath.methods c.decl).flatMap (env.remarks c))
  | rejected (before : List Callable) (m : Callable) (after : List Callable) (f : Failure)
      (methods : env.symbols.classpath.methods c.decl = before ++ m :: after)
      (accepts : ∀ k ∈ before, env.Admits c k) (rejects : env.Rejects c m f)
      (h : (env.renderOne c).result = .error (.failed (planningFailure c m f)))
      (remarks : diagnostics (env.renderOne c).events = (before ++ [m]).flatMap (env.remarks c))

def attempt (env : Env) (c : Container) (m : Callable) : Trial (Option Provision) :=
  (env.classify c m).within (.classify (c.element m))

/-- The plan of a container as one sequence: its methods, their classification, and the record. -/
theorem plan_of_methods (c : Container) {methods : List Callable}
    (h : (env.symbols.methods c.decl).result = .ok methods) : env.plan c =
      forAll (env.attempt c) (env.symbols.classpath.methods c.decl) >>= fun found =>
        ⟨[.planned c.qualifiedName c.moduleClass.canonical (found.filterMap id).length],
          .ok ⟨c, c.moduleClass, found.filterMap id⟩⟩ := by
  obtain rfl := Symbols.methods_eq_ok h
  have hevents : (env.symbols.methods c.decl).events = [] := by
    unfold Symbols.methods
    split <;> rfl
  unfold plan
  rw [bind_of_ok _ h, hevents, List.nil_append]
  rfl

theorem diagnostics_attempts (methods : List Callable) :
    diagnostics (methods.flatMap fun m => (env.attempt c m).events) =
      methods.flatMap (env.remarks c) := by
  rw [diagnostics_flatMap]
  simp only [attempt, events_within]
  rfl

theorem render_ends (env : Env) (c : Container) : env.RenderEnds c := by
  rcases env.symbols.methods_ends c.decl with hm | ⟨message, hm⟩
  · have hplan : env.plan c = _ := plan_of_methods c hm
    rcases forAll_ends (env.attempt c) (env.symbols.classpath.methods c.decl) with
      ⟨found, hfound⟩ | ⟨before, m, after, stop, hmethods, hbefore, hstop⟩
    · have hforall : ∀ m ∈ env.symbols.classpath.methods c.decl, env.Admits c m := by
        have h := hfound
        simp only [attempt, forAll_eq_ok, within_eq_ok] at h
        exact (forall₂_classify_iff.mp h).1
      rw [bind_of_ok _ hfound, events_forAll hfound] at hplan
      have hok : (env.plan c).result = .ok ⟨c, c.moduleClass, found.filterMap id⟩ := by rw [hplan]
      have hresult : ((env.plan c).within (.plan c.qualifiedName)).result =
          .ok ⟨c, c.moduleClass, found.filterMap id⟩ := within_eq_ok.mpr hok
      refine .rendered _ (bind_eq_ok.mpr ⟨_, hresult, rfl⟩) hforall ?_
      rw [renderOne, bind_of_ok _ hresult, events_within, hplan, diagnostics_append,
        diagnostics_append, diagnostics_attempts]
      simp [diagnostics, Event.diagnostic?]
    · have hforall : forAll (env.attempt c) (env.symbols.classpath.methods c.decl) =
          ⟨(before ++ [m]).flatMap fun m => (env.attempt c m).events, .error stop⟩ := by
        rw [hmethods, forAll_of_stop hbefore hstop]
      have hresult : (forAll (env.attempt c) (env.symbols.classpath.methods c.decl)).result =
          .error stop := by rw [hforall]
      rw [bind_of_error _ hresult, hforall] at hplan
      have hrender : ∀ outer, ((env.plan c).within (.plan c.qualifiedName)).result = .error outer →
          env.renderOne c = ⟨(before ++ [m]).flatMap fun m => (env.attempt c m).events,
            .error outer⟩ := by
        intro outer h
        rw [renderOne, bind_of_error _ h, events_within, hplan]
      cases stop with
      | crashed message =>
        have hcrash : (env.plan c).result = .error (.crashed message) := by rw [hplan]
        have houter := hrender (.crashed message) (by rw [within_of_crashed _ hcrash, hcrash])
        exact .crashed message (by rw [houter])
      | failed g =>
        have hfailed : (env.plan c).result = .error (.failed g) := by rw [hplan]
        have houter := hrender (.failed (g.within (.plan c.qualifiedName)))
          (by rw [within_of_failed _ hfailed])
        obtain ⟨f, hf, rfl⟩ := within_eq_failed.mp hstop
        refine .rejected before m after f hmethods ?_ hf (by rw [houter]; rfl) ?_
        · intro k hk
          obtain ⟨o, ho⟩ := hbefore k hk
          exact ⟨o, within_eq_ok.mp ho⟩
        · rw [houter, diagnostics_attempts]
  · have hplan : (env.plan c).result = .error (.crashed message) := bind_eq_error.mpr (.inl hm)
    refine .crashed message (bind_eq_error.mpr (.inl ?_))
    rw [within_of_crashed _ hplan, hplan]

end Env

end Provisioning
