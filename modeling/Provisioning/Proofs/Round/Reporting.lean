import Provisioning.Proofs.Module.Rejection
import Provisioning.Proofs.Round.Discovery
import Provisioning.Round.Processor

/-! # What a round reports

A round reports warnings first and at most one error, at its end. When its roots
are known and no look-up crashes, that error belongs to the first rejected method
in the order of the containers, or there is none and all methods are classified.
-/

namespace Provisioning

open Trial

section Reports

theorem Failure.severity_diagnostic (f : Failure) : f.diagnostic.severity = .error := by
  unfold Failure.diagnostic
  split <;> rfl

/-- What happens before anything is written is reported as a warning, if at all. -/
theorem Trial.Renders.warns {α : Type} {x : Trial α} (h : x.Renders) :
    ∀ d ∈ diagnostics x.events, d.severity = .mandatoryWarning := by
  intro d hd
  obtain ⟨e, he, hde⟩ := List.mem_filterMap.mp hd
  have hr := h.event e he
  cases e with
  | warned message element =>
    cases hde
    rfl
  | failed f => exact absurd hr id
  | started => cases hde
  | discovered => cases hde
  | classified => cases hde
  | planned => cases hde
  | generated => cases hde
  | completed => cases hde

variable {σ : Type} [Filer σ]

def closing (result : Except Stop (List OutputFile)) : Log :=
  match result with
  | .ok _ => []
  | .error stop => [stop.failure.diagnostic]

theorem diagnostics_outcome (t : Trial (List OutputFile)) :
    diagnostics [Processor.outcome t] = closing t.result := by
  unfold Processor.outcome closing
  cases t.result <;> rfl

theorem Processor.log_process (p : Processor σ) (round : Round) :
    (p.process round).2.log = p.log ++
      diagnostics (p.env.generate p.filer round.roots).2.events ++
      closing (p.generate round.roots).2 := by
  have hend := diagnostics_outcome (p.env.generate p.filer round.roots).2
  have hlog : (p.process round).2.log = diagnostics (p.events ++
      (p.env.generate p.filer round.roots).2.events ++
      [Processor.outcome (p.env.generate p.filer round.roots).2]) := rfl
  rw [hlog, diagnostics_append, diagnostics_append, hend]
  rfl

theorem writeAll_ends (s : σ) (fs : List OutputFile) :
    diagnostics (writeAll s fs).2.events = [] ∧
      ((writeAll s fs).2.result = .ok () ∨
        ∃ name e, (writeAll s fs).2.result = .error (.failed (writeFailure name e))) := by
  induction fs generalizing s with
  | nil => exact ⟨rfl, .inl rfl⟩
  | cons f rest ih =>
    unfold writeAll
    cases Filer.write s f with
    | mk t result =>
      cases result with
      | ok u => exact ih t
      | error e => exact ⟨rfl, .inr ⟨f.qualifiedName, e, rfl⟩⟩

namespace Env

variable {env : Env} {s : σ} {roots : List String}

theorem diagnostics_generate (env : Env) (s : σ) (roots : List String) :
    diagnostics (env.generate s roots).2.events = diagnostics (env.render roots).events := by
  unfold generate
  dsimp only
  split
  · rw [events_within]
  · split
    · rw [events_within]
    · rw [diagnostics_append, (writeAll_ends s _).1, List.append_nil, events_within]

theorem generate_of_stop {stop : Stop}
    (h : ((env.render roots).within .generate).result = .error stop) :
    (env.generate s roots).2.result = .error stop := by
  simp only [generate, h]

theorem generate_of_render {files : List OutputFile} (h : (env.render roots).result = .ok files) :
    (env.generate s roots).2.result = .ok files ∨
      ∃ name e, (env.generate s roots).2.result = .error (.failed (writeFailure name e)) := by
  have hw : ((env.render roots).within .generate).result = .ok files := within_eq_ok.mpr h
  cases hc : firstConflict s [] files with
  | some name =>
    right
    refine ⟨name, .alreadyCreated name, ?_⟩
    simp only [generate, hw, hc]
  | none =>
    simp only [generate, hw, hc]
    rcases (writeAll_ends s files).2 with hok | ⟨name, e, hstop⟩
    · left
      rw [hok]
      rfl
    · right
      refine ⟨name, e, ?_⟩
      rw [hstop]
      rfl

end Env

end Reports

section Discovery

variable {env : Env} {roots : List String}

theorem Env.find?_of_root {name : String} {d : TypeDecl} (h : (env.root name).result = .ok d) :
    env.symbols.classpath.find? name = some d := by
  obtain ⟨found, hfound, h⟩ := bind_eq_ok.mp h
  have hlookup : found = env.symbols.classpath.find? name := by
    unfold Symbols.lookup at hfound
    split at hfound
    · cases hfound
    · exact (Except.ok.inj hfound).symm
  cases found with
  | none => cases h
  | some e =>
    cases h
    exact hlookup.symm

/-- The declaration of a known root is found, unless the look-up crashes. -/
theorem Env.root_crashes {name : String} {d : TypeDecl} {stop : Stop}
    (hd : env.symbols.classpath.find? name = some d) (h : (env.root name).result = .error stop) :
    ∃ message, stop = .crashed message := by
  unfold Env.root Symbols.lookup at h
  cases hcrash : env.symbols.crash name with
  | some message =>
    rw [hcrash] at h
    exact ⟨message, (Except.error.inj h).symm⟩
  | none =>
    have hfound : (Trial.pure (env.symbols.classpath.find? name)).result = .ok (some d) := by
      rw [hd, result_pure]
    rw [hcrash, bind_of_ok _ hfound] at h
    cases h

theorem Env.marked_ofClasspath (seen : List String) (ds : List TypeDecl) :
    (ofClasspath env.symbols.classpath env.markers).marked seen ds = env.marked seen ds := by
  induction ds generalizing seen with
  | nil => rfl
  | cons d rest ih =>
    unfold marked
    rw [ih, ih]
    rfl

def Env.containers (env : Env) (roots : List String) : List Container :=
  containersAt env.symbols.classpath env.markers roots

/-- Known roots are discovered as on the classpath, unless a look-up crashes. -/
theorem Env.discover_ends (h : env.symbols.classpath.Known roots) :
    (env.discover roots).result = .ok (env.containers roots) ∨
      ∃ message, (env.discover roots).result = .error (.crashed message) := by
  rcases forAll_ends env.root roots with ⟨ds, hds⟩ | ⟨before, name, after, stop, rfl, hb, hstop⟩
  · have hfound := (forAll_eq_ok.mp hds).imp fun _ _ => Env.find?_of_root
    obtain ⟨-, rfl⟩ := Classpath.forall₂_find?_iff.mp hfound
    left
    refine bind_eq_ok.mpr ⟨_, hds, ?_⟩
    rw [containers, containersAt, marked_ofClasspath]
    rfl
  · obtain ⟨d, hd⟩ := h name (List.mem_append_right _ List.mem_cons_self)
    obtain ⟨message, rfl⟩ := Env.root_crashes hd hstop
    right
    refine ⟨message, bind_eq_error.mpr (.inl ?_)⟩
    rw [forAll_of_stop hb hstop]

theorem Env.diagnostics_discover (env : Env) (roots : List String) :
    diagnostics (env.discover roots).events = [] := by
  have hroot : ∀ name, (env.root name).Keeps (fun e => e.diagnostic? = none) fun _ => True := by
    intro name
    refine Keeps.bind ?_ ?_
    · unfold Symbols.lookup
      split
      · exact keeps_crash _
      · exact keeps_pure _
    · intro found _
      cases found with
      | some d => exact keeps_pure d
      | none => exact (keeps_fail trivial).within _ fun _ _ => trivial
  have hkeeps : (env.discover roots).Keeps (fun e => e.diagnostic? = none) fun _ => True := by
    refine (keeps_forAll fun name _ => hroot name).bind fun ds _ => ?_
    exact Keeps.bind (keeps_record rfl) fun _ _ => keeps_pure _
  exact List.filterMap_eq_nil_iff.mpr hkeeps.event

end Discovery

section First

/-- If two lists are split at their first element without a property, they are split alike. -/
theorem split_unique {α : Type} {P : α → Prop} {before after more rest : List α} {a b : α}
    (h : before ++ a :: after = more ++ b :: rest) (hbefore : ∀ x ∈ before, P x) (ha : ¬ P a)
    (hmore : ∀ x ∈ more, P x) (hb : ¬ P b) : before = more ∧ a = b ∧ after = rest := by
  induction before generalizing more with
  | nil =>
    cases more with
    | nil =>
      cases h
      exact ⟨rfl, rfl, rfl⟩
    | cons x xs =>
      cases h
      exact absurd (hmore a List.mem_cons_self) ha
  | cons x xs ih =>
    cases more with
    | nil =>
      cases h
      exact absurd (hbefore b List.mem_cons_self) hb
    | cons y ys =>
      obtain ⟨rfl, htail⟩ := List.cons.inj h
      obtain ⟨rfl, hab, hrest⟩ := ih htail (fun z hz => hbefore z (List.mem_cons_of_mem x hz))
        fun z hz => hmore z (List.mem_cons_of_mem x hz)
      exact ⟨rfl, hab, hrest⟩

/-- The first rejected method, in the order of the containers and of the methods of each. -/
structure FirstRejection (env : Env) (containers : List Container) where
  earlier : List Container
  container : Container
  later : List Container
  before : List Callable
  method : Callable
  after : List Callable
  failure : Failure
  containers_eq : containers = earlier ++ container :: later
  methods_eq : env.symbols.classpath.methods container.decl = before ++ method :: after
  accepts_earlier : ∀ c ∈ earlier, ∀ m ∈ env.symbols.classpath.methods c.decl, env.Admits c m
  accepts_before : ∀ m ∈ before, env.Admits container m
  rejects : env.Rejects container method failure

def Env.remarksOn (env : Env) (containers : List Container) : Log :=
  containers.flatMap fun c => (env.symbols.classpath.methods c.decl).flatMap (env.remarks c)

namespace FirstRejection

variable {env : Env} {containers : List Container}

def remarks (r : FirstRejection env containers) : Log :=
  env.remarksOn r.earlier ++ (r.before ++ [r.method]).flatMap (env.remarks r.container)

theorem not_accepted {c : Container} {before after : List Callable} {m : Callable} {f : Failure}
    (hm : env.symbols.classpath.methods c.decl = before ++ m :: after) (hf : env.Rejects c m f) :
    ¬ ∀ k ∈ env.symbols.classpath.methods c.decl, env.Admits c k := by
  intro h
  have hmem : m ∈ env.symbols.classpath.methods c.decl :=
    hm ▸ List.mem_append_right _ List.mem_cons_self
  exact (h m hmem).not_rejects hf

theorem exists_rejects (r : FirstRejection env containers) : ∃ c ∈ containers,
    ∃ m ∈ env.symbols.classpath.methods c.decl, ∃ f, env.Rejects c m f := by
  obtain ⟨earlier, c, later, before, m, after, f, rfl, hm, -, -, hf⟩ := r
  refine ⟨c, List.mem_append_right _ List.mem_cons_self, m, ?_, f, hf⟩
  rw [hm]
  exact List.mem_append_right _ List.mem_cons_self

instance : Subsingleton (FirstRejection env containers) where
  allEq first second := by
    obtain ⟨earlier, c, later, before, m, after, f, hc, hm, hearlier, hbefore, hf⟩ := first
    obtain ⟨earlier', c', later', before', k, after', g, hc', hk, hearlier', hbefore', hg⟩ := second
    obtain ⟨rfl, rfl, rfl⟩ := split_unique (hc.symm.trans hc') hearlier (not_accepted hm hf)
      hearlier' (not_accepted hk hg)
    obtain ⟨rfl, rfl, rfl⟩ := split_unique (hm.symm.trans hk) hbefore
      (fun h => h.not_rejects hf) hbefore' fun h => h.not_rejects hg
    cases Stop.failed.inj (Except.error.inj (hf.symm.trans hg))
    rfl

end FirstRejection

inductive RenderingEnds (env : Env) (containers : List Container) : Prop
  | crashed (message : Option String)
      (h : (forAll env.renderOne containers).result = .error (.crashed message))
  | rendered (files : List OutputFile) (h : (forAll env.renderOne containers).result = .ok files)
      (accepts : ∀ c ∈ containers, ∀ m ∈ env.symbols.classpath.methods c.decl, env.Admits c m)
      (remarks : diagnostics (forAll env.renderOne containers).events = env.remarksOn containers)
  | rejected (first : FirstRejection env containers)
      (h : (forAll env.renderOne containers).result =
        .error (.failed (Env.planningFailure first.container first.method first.failure)))
      (remarks : diagnostics (forAll env.renderOne containers).events = first.remarks)

/-- A container whose module is rendered has no rejected method. -/
theorem Env.remarks_of_rendered {env : Env} {c : Container} {file : OutputFile}
    (h : (env.renderOne c).result = .ok file) :
    (∀ m ∈ env.symbols.classpath.methods c.decl, env.Admits c m) ∧
      diagnostics (env.renderOne c).events =
        (env.symbols.classpath.methods c.decl).flatMap (env.remarks c) := by
  cases env.render_ends c with
  | crashed message hstop =>
    rw [h] at hstop
    cases hstop
  | rendered file h accepts remarks => exact ⟨accepts, remarks⟩
  | rejected before m after f methods accepts rejects hstop =>
    rw [h] at hstop
    cases hstop

theorem Env.remarksOn_of_rendered {env : Env} {containers : List Container}
    (h : ∀ c ∈ containers, ∃ file, (env.renderOne c).result = .ok file) :
    diagnostics (containers.flatMap fun c => (env.renderOne c).events) =
      env.remarksOn containers := by
  rw [diagnostics_flatMap, remarksOn, List.flatMap_def, List.flatMap_def]
  congr 1
  refine List.map_congr_left ?_
  intro c hc
  obtain ⟨file, hfile⟩ := h c hc
  exact (remarks_of_rendered hfile).2

theorem Env.rendering_ends (env : Env) (containers : List Container) :
    RenderingEnds env containers := by
  rcases forAll_ends env.renderOne containers with
    ⟨files, hfiles⟩ | ⟨earlier, c, later, stop, rfl, hearlier, hstop⟩
  · have hall := answers_of_forAll hfiles
    refine .rendered files hfiles ?_ ?_
    · intro c hc
      obtain ⟨file, hfile⟩ := hall c hc
      exact (remarks_of_rendered hfile).1
    · rw [events_forAll hfiles, remarksOn_of_rendered hall]
  · have hforall : forAll env.renderOne (earlier ++ c :: later) = _ :=
      forAll_of_stop hearlier hstop
    cases env.render_ends c with
    | crashed message h =>
      refine .crashed message ?_
      have hcrash : stop = .crashed message := Except.error.inj (hstop.symm.trans h)
      rw [hforall, hcrash]
    | rendered file h =>
      rw [h] at hstop
      cases hstop
    | rejected before m after f methods accepts rejects h remarks =>
      rw [h] at hstop
      cases hstop
      have hfirst : ∀ k ∈ earlier, ∀ m ∈ env.symbols.classpath.methods k.decl,
          env.Admits k m := by
        intro k hk
        obtain ⟨file, hfile⟩ := hearlier k hk
        exact (remarks_of_rendered hfile).1
      refine .rejected
        ⟨earlier, c, later, before, m, after, f, rfl, methods, hfirst, accepts, rejects⟩ ?_ ?_
      · rw [hforall]
      · rw [hforall, List.flatMap_append, diagnostics_append, List.flatMap_singleton, remarks,
          remarksOn_of_rendered hearlier]
        rfl

end First

section Texts

theorem Frame.isDriver_classify (element : String) : (Frame.classify element).isDriver = false := by
  unfold isDriver text
  rw [String.toList_append, String.toList_append]
  rfl

theorem Frame.isDriver_plan (container : String) : (Frame.plan container).isDriver = false := by
  unfold isDriver text
  rw [String.toList_append, String.toList_append]
  rfl

/-- What is reported of a method that is rejected with a failure: a broken rule or property against
the method, anything else with the classification and the planning as its trace. -/
def Failure.reportOn (f : Failure) (c : Container) (m : Callable) : Diagnostic :=
  if f.isValidation then .error f.message (some (c.element m))
  else .error (f.message ++ "\n\tat stiletto::provision::classify(" ++ c.element m ++
    ")\n\tat stiletto::module::ModulePlan::new(" ++ c.qualifiedName ++ ")") none

theorem Failure.report_of_planning {f : Failure} (c : Container) (m : Callable)
    (h : f.trace = []) : ((Env.planningFailure c m f).within .generate).report =
      f.message ++ "\n\tat stiletto::provision::classify(" ++ c.element m ++
        ")\n\tat stiletto::module::ModulePlan::new(" ++ c.qualifiedName ++ ")" := by
  have htrace : ((Env.planningFailure c m f).within .generate).trace =
      [.classify (c.element m), .plan c.qualifiedName, .generate] := by
    simp only [Env.planningFailure, Failure.within, h, List.nil_append, List.cons_append]
  have hdriver : Frame.generate.isDriver = true := by decide
  have hcut : ([Frame.classify (c.element m), .plan c.qualifiedName, .generate].takeWhile
      fun frame => !frame.isDriver) = [.classify (c.element m), .plan c.qualifiedName] := by
    simp only [List.takeWhile, Frame.isDriver_classify, Frame.isDriver_plan, hdriver, Bool.not_true,
      Bool.not_false]
  have hclassify : "\n\tat stiletto::provision::classify(" =
      "\n\tat " ++ "stiletto::provision::classify(" := rfl
  have hplan : ")\n\tat stiletto::module::ModulePlan::new(" =
      ")" ++ ("\n\tat " ++ "stiletto::module::ModulePlan::new(") := rfl
  have hmessage : ((Env.planningFailure c m f).within .generate).message = f.message := rfl
  -- over variables, since the literals must not be unfolded
  have hjoin : ∀ message line open₁ open₂ close a b : String,
      message ++ String.join [line ++ (open₁ ++ a ++ close), line ++ (open₂ ++ b ++ close)] =
        message ++ (line ++ open₁) ++ a ++ (close ++ (line ++ open₂)) ++ b ++ close := by
    intro message line open₁ open₂ close a b
    simp only [String.join, List.foldl, String.empty_append, String.append_assoc]
  rw [report, htrace, hcut, hmessage, hclassify, hplan]
  exact hjoin _ _ _ _ _ _ _

theorem Env.Rejection.diagnostic {env : Env} {c : Container} {m : Callable} {f : Failure}
    (h : env.Rejection c m f) :
    ((planningFailure c m f).within .generate).diagnostic = f.reportOn c m := by
  cases h with
  | rule v => rfl
  | property p => rfl
  | undeclared t =>
    have hreport := Failure.report_of_planning (f := .of (.unknownType t.text)) c m rfl
    simp only [Failure.diagnostic, Failure.reportOn]
    rw [hreport]
    rfl

theorem Stop.diagnostic_of_crash (message : Option String) : (crashed message).failure.diagnostic =
    .error ("Internal error: " ++ message.getD "unknown panic") none := by
  have hreport : (crashed message).failure.diagnostic =
      .error ("Internal error: " ++ message.getD "unknown panic" ++ "") none := rfl
  rw [hreport, String.append_empty]

end Texts

section Rounds

def Failure.OfClassification (f : Failure) : Prop := ∃ element, Frame.classify element ∈ f.trace

theorem Failure.ofClassification_planning (c : Container) (m : Callable) (f : Failure) :
    ((Env.planningFailure c m f).within .generate).OfClassification := by
  refine ⟨c.element m, ?_⟩
  simp [Env.planningFailure, within]

theorem Failure.not_ofClassification_write (name : String) (e : WriteError) :
    ¬ (writeFailure name e).OfClassification := by
  rintro ⟨element, h⟩
  simp [writeFailure, Failure.of, within] at h

variable {σ : Type} [Filer σ] {env : Env} {roots : List String}

/-- With known roots and without a crash, either all methods are classified and only the output can
fail, or the failure is that of the first rejected method. -/
theorem Env.generate_of_known {s : σ} (hk : env.symbols.classpath.Known roots)
    (hcrash : ∀ message, (env.generate s roots).2.result ≠ .error (.crashed message)) :
    ((∀ c ∈ env.containers roots, ∀ m ∈ env.symbols.classpath.methods c.decl, env.Admits c m) ∧
      diagnostics (env.generate s roots).2.events = env.remarksOn (env.containers roots) ∧
      ((∃ files, (env.generate s roots).2.result = .ok files) ∨
        ∃ name e, (env.generate s roots).2.result = .error (.failed (writeFailure name e)))) ∨
    ∃ first : FirstRejection env (env.containers roots),
      diagnostics (env.generate s roots).2.events = first.remarks ∧
      (env.generate s roots).2.result = .error (.failed
        ((planningFailure first.container first.method first.failure).within .generate)) := by
  have crashes : ∀ message, (env.render roots).result ≠ .error (.crashed message) := by
    intro message h
    refine hcrash message (generate_of_stop ?_)
    rw [within_of_crashed _ h, h]
  rcases Env.discover_ends hk with hd | ⟨message, hd⟩
  · have hrender : env.render roots = ⟨(env.discover roots).events ++
        (forAll env.renderOne (env.containers roots)).events,
        (forAll env.renderOne (env.containers roots)).result⟩ := by
      rw [render, bind_of_ok _ hd]
    have hevents : diagnostics (env.generate s roots).2.events =
        diagnostics (forAll env.renderOne (env.containers roots)).events := by
      rw [diagnostics_generate, hrender, diagnostics_append, diagnostics_discover, List.nil_append]
    cases env.rendering_ends (env.containers roots) with
    | crashed message h =>
      refine absurd ?_ (crashes message)
      rw [hrender, h]
    | rendered files h accepts remarks =>
      left
      have hfiles : (env.render roots).result = .ok files := by rw [hrender, h]
      refine ⟨accepts, hevents.trans remarks, ?_⟩
      rcases generate_of_render (s := s) hfiles with hok | hstop
      · exact .inl ⟨files, hok⟩
      · exact .inr hstop
    | rejected first h remarks =>
      right
      refine ⟨first, hevents.trans remarks, generate_of_stop ?_⟩
      have hfailed : (env.render roots).result = .error (.failed
          (planningFailure first.container first.method first.failure)) := by rw [hrender, h]
      rw [within_of_failed _ hfailed]
  · exact absurd (bind_eq_error.mpr (.inl hd)) (crashes message)

namespace Processor

/-- A round is claimed and left idle however it ends. It reports warnings, and exactly one error if
it failed. With known roots and without a crash it fails in a classification exactly when some
method is rejected on its own, and what it reports is then the first one of these, after the
diagnostics of the methods up to it. -/
theorem round_reports_first_error (p : Processor σ) (round : Round) :
    let result := (p.generate round.roots).2
    let log := (p.process round).2.log
    let containers := p.env.containers round.roots
    let methods (c : Container) := p.env.symbols.classpath.methods c.decl
    (p.process round).1 = true ∧ (p.process round).2.phase = .idle ∧
    (∃ warnings : Log, (∀ d ∈ warnings, d.severity = .mandatoryWarning) ∧
      (∀ files, result = .ok files → log = p.log ++ warnings) ∧
      (∀ stop, result = .error stop → stop.failure.diagnostic.severity = .error ∧
        log = p.log ++ warnings ++ [stop.failure.diagnostic])) ∧
    (∀ message, result = .error (.crashed message) → log.getLast? =
      some (.error ("Internal error: " ++ message.getD "unknown panic") none)) ∧
    (p.env.symbols.classpath.Known round.roots → (∀ message, result ≠ .error (.crashed message)) →
      ((∃ f, result = .error (.failed f) ∧ f.OfClassification) ↔
        ∃ c ∈ containers, ∃ m ∈ methods c, ∃ f, p.env.Rejects c m f) ∧
      ((∃ c ∈ containers, ∃ m ∈ methods c, ∃ f, p.env.Rejects c m f) →
        Nonempty (FirstRejection p.env containers)) ∧
      (∀ first : FirstRejection p.env containers,
        p.env.Rejection first.container first.method first.failure ∧
        log = p.log ++ first.remarks ++ [first.failure.reportOn first.container first.method]) ∧
      (IsEmpty (FirstRejection p.env containers) →
        log = p.log ++ p.env.remarksOn containers ++ closing result)) := by
  intro result log containers methods
  have hlog : log = p.log ++ diagnostics (p.env.generate p.filer round.roots).2.events ++
      closing result := p.log_process round
  refine ⟨rfl, rfl, ?_, ?_, ?_⟩
  · refine ⟨diagnostics (p.env.render round.roots).events,
      (p.env.renders_render round.roots).warns, ?_, ?_⟩
    · intro files h
      rw [hlog, h, Env.diagnostics_generate, closing, List.append_nil]
    · intro stop h
      refine ⟨stop.failure.severity_diagnostic, ?_⟩
      rw [hlog, h, Env.diagnostics_generate]
      rfl
  · intro message h
    have hlast : closing result =
        [.error ("Internal error: " ++ message.getD "unknown panic") none] := by
      rw [h, closing, Stop.diagnostic_of_crash]
    rw [hlog, hlast, List.getLast?_concat]
  · intro hk hcrash
    rcases Env.generate_of_known hk hcrash with
      ⟨haccepts, hevents, hend⟩ | ⟨first, hevents, hresult⟩
    · have hnone : ¬ ∃ c ∈ containers, ∃ m ∈ methods c, ∃ f, p.env.Rejects c m f := by
        rintro ⟨c, hc, m, hm, f, hf⟩
        exact (haccepts c hc m hm).not_rejects hf
      refine ⟨iff_of_false ?_ hnone, fun h => absurd h hnone, ?_, ?_⟩
      · rintro ⟨f, hf, hclassify⟩
        rcases hend with ⟨files, hok⟩ | ⟨name, e, hstop⟩
        · cases hf.symm.trans hok
        · cases hf.symm.trans hstop
          exact Failure.not_ofClassification_write name e hclassify
      · intro first
        exact absurd first.exists_rejects hnone
      · intro _
        rw [hlog, hevents]
    · have hreject : p.env.Rejection first.container first.method first.failure :=
        first.rejects.rejection
      refine ⟨iff_of_true ⟨_, hresult, Failure.ofClassification_planning _ _ _⟩
        first.exists_rejects, fun _ => ⟨first⟩, ?_, fun h => (h.false first).elim⟩
      intro other
      obtain rfl := Subsingleton.elim first other
      refine ⟨hreject, ?_⟩
      have hclosing : closing result = [first.failure.reportOn first.container first.method] := by
        change closing (p.env.generate p.filer round.roots).2.result = _
        rw [hresult, ← hreject.diagnostic]
        rfl
      rw [hlog, hevents, hclosing]

end Processor

def primitiveCounter (name : String) : Callable :=
  ((Callable.method name "int").annotated (.of Markers.default.runtime)).annotated
    (.of "javax.annotation.Nullable")

def ghostProcessor : Processor MemoryFiler :=
  let ghost := (Callable.method "ghost" "a.Ghost").annotated (.of Markers.default.newInstance)
  let first := (bareContainer "a.FirstComponent").withMember (primitiveCounter "hits")
  let second := (bareContainer "a.SecondComponent").withMember (primitiveCounter "misses")
  .start ⟨.ofClasspath (.ofList [first, second.withMember ghost]), .default⟩ .empty

/-- Both values are warned about before the missing implementation is reported. -/
theorem ghostProcessor_reports_ghost :
    let round := Round.of ["a.FirstComponent", "a.SecondComponent"]
    let log := (ghostProcessor.process round).2.log
    ghostProcessor.env.symbols.classpath.Known round.roots ∧
    (∀ message, (ghostProcessor.generate round.roots).2 ≠ .error (.crashed message)) ∧
    (∃ first : FirstRejection ghostProcessor.env (ghostProcessor.env.containers round.roots),
      log = first.remarks ++ [first.failure.reportOn first.container first.method]) ∧
    log.map Diagnostic.element =
      [some "a.FirstComponent.hits()", some "a.SecondComponent.misses()", none] := by
  intro round log
  have hknown : ghostProcessor.env.symbols.classpath.Known round.roots := by
    intro r hr
    refine Option.isSome_iff_exists.mp ?_
    revert r
    decide
  have hcrash : ∀ message, (ghostProcessor.generate round.roots).2 ≠
      .error (.crashed message) := by
    intro message h
    cases h
  obtain ⟨hclassify, hfirst, hlog, -⟩ :=
    (ghostProcessor.round_reports_first_error round).2.2.2.2 hknown hcrash
  obtain ⟨first⟩ := hfirst (hclassify.mp
    ⟨_, rfl, "a.SecondComponent.ghost()", List.mem_cons_self⟩)
  exact ⟨hknown, hcrash, ⟨first, (hlog first).2⟩, by decide +kernel⟩

end Rounds

end Provisioning
