import Provisioning.Proofs.Filing
import Provisioning.Proofs.Module.Planning
import Provisioning.Proofs.Round.Rendering
import Provisioning.Round.Processor

/-! # Rounds are atomic

A round stops before anything is written, or writes the files of all containers,
or is cut short by a name that the filer refuses, and then the files before that
name are written. Every other result about rounds is read off this case analysis.
-/

namespace Provisioning

open KeepingFiler (files refusal)

def Stop.refusal (name message : String) : Stop := .failed (writeFailure name (.refused message))

/-- The containers among the roots are discovered, and these are their files, one for each container
and in the order of discovery. -/
def Env.Yields (env : Env) (roots : List String) (fs : List OutputFile) : Prop :=
  ∃ containers, (env.discover roots).result = .ok containers ∧
    List.Forall₂ (fun c f => (env.renderOne c).result = .ok f) containers fs

theorem Env.render_eq_ok_iff_yields {env : Env} {roots : List String} {fs : List OutputFile} :
    (env.render roots).result = .ok fs ↔ env.Yields roots fs := env.render_eq_ok

section Ends

variable {σ : Type} [KeepingFiler σ]

/-- Either no file is refused, or there is a first one that is. -/
theorem refusal_cases (s : σ) (fs : List OutputFile) :
    (∀ f ∈ fs, refusal s f.qualifiedName = none) ∨
      ∃ written f rest message, fs = written ++ f :: rest ∧
        (∀ g ∈ written, refusal s g.qualifiedName = none) ∧
        refusal s f.qualifiedName = some message := by
  cases h : fs.find? fun f => (refusal s f.qualifiedName).isSome with
  | none => exact .inl (by simpa using h)
  | some f =>
    obtain ⟨hf, written, rest, rfl, hr⟩ := List.find?_eq_some_iff_append.mp h
    obtain ⟨message, hm⟩ := Option.isSome_iff_exists.mp hf
    exact .inr ⟨written, f, rest, message, rfl, by simpa using hr, hm⟩

namespace Env

variable {env : Env} {s : σ} {roots : List String}

theorem generate_of_accepts {fs : List OutputFile} (h : (env.render roots).result = .ok fs)
    (hd : Accepts (files s) fs) (hr : ∀ f ∈ fs, refusal s f.qualifiedName = none) :
    ∃ t, env.generate s roots = (t, ⟨(env.render roots).events ++
        fs.map fun f => .generated f.qualifiedName, .ok fs⟩) ∧
      refusal t = refusal s ∧ Gains (files s) (files t) fs := by
  obtain ⟨t, ht, htr, hg⟩ := writeAll_of_accepts s fs hd hr
  have hc := (firstConflict_eq_none_iff_accepts s fs).mpr hd
  refine ⟨t, ?_, htr, hg⟩
  simp only [generate, Trial.within_eq_ok.mpr h, hc, ht, Trial.events_within]
  rfl

theorem generate_of_refused {written rest : List OutputFile} {f : OutputFile} {message : String}
    (h : (env.render roots).result = .ok (written ++ f :: rest))
    (hd : Accepts (files s) (written ++ f :: rest))
    (hr : ∀ g ∈ written, refusal s g.qualifiedName = none)
    (hf : refusal s f.qualifiedName = some message) :
    ∃ t, env.generate s roots = (t, ⟨(env.render roots).events ++
        written.map fun g => .generated g.qualifiedName,
        .error (.refusal f.qualifiedName message)⟩) ∧
      Gains (files s) (files t) written := by
  obtain ⟨t, ht, hg⟩ := writeAll_of_refused s written f rest message hd hr hf
  have hc := (firstConflict_eq_none_iff_accepts s _).mpr hd
  refine ⟨t, ?_, hg⟩
  simp only [generate, Trial.within_eq_ok.mpr h, hc, ht, Trial.events_within]
  rfl

end Env

/-- The ways in which a round over some roots ends: the filer and the trial that it leaves. -/
inductive RoundEnds (env : Env) (s : σ) (roots : List String) : σ → Trial (List OutputFile) → Prop
  | stopped {stop : Stop} (h : ((env.render roots).within .generate).result = .error stop) :
    RoundEnds env s roots s ⟨(env.render roots).events, .error stop⟩
  | conflict {fs : List OutputFile} {name : String} (h : env.Yields roots fs)
      (hd : ¬ Accepts (files s) fs) :
    RoundEnds env s roots s ⟨(env.render roots).events,
      .error (.failed (writeFailure name (.alreadyCreated name)))⟩
  | refused {written rest : List OutputFile} {f : OutputFile} {message : String} {t : σ}
      (h : env.Yields roots (written ++ f :: rest))
      (hd : Accepts (files s) (written ++ f :: rest))
      (hr : ∀ g ∈ written, refusal s g.qualifiedName = none)
      (hf : refusal s f.qualifiedName = some message) (hg : Gains (files s) (files t) written) :
    RoundEnds env s roots t
      ⟨(env.render roots).events ++ written.map fun g => .generated g.qualifiedName,
        .error (.refusal f.qualifiedName message)⟩
  | written {fs : List OutputFile} {t : σ} (h : env.Yields roots fs)
      (hr : ∀ f ∈ fs, refusal s f.qualifiedName = none) (hg : Gains (files s) (files t) fs)
      (ht : refusal t = refusal s) :
    RoundEnds env s roots t
      ⟨(env.render roots).events ++ fs.map fun f => .generated f.qualifiedName, .ok fs⟩

theorem Env.generate_ends (env : Env) (s : σ) (roots : List String) :
    RoundEnds env s roots (env.generate s roots).1 (env.generate s roots).2 := by
  cases h : ((env.render roots).within .generate).result with
  | error stop =>
    have he : env.generate s roots = (s, ⟨(env.render roots).events, .error stop⟩) := by
      simp only [Env.generate, h, Trial.events_within]
    rw [he]
    exact .stopped h
  | ok fs =>
    have hok := Trial.within_eq_ok.mp h
    have hy := Env.render_eq_ok_iff_yields.mp hok
    by_cases hd : Accepts (files s) fs
    · rcases refusal_cases s fs with hr | ⟨written, f, rest, message, rfl, hr, hf⟩
      · obtain ⟨t, he, ht, hg⟩ := Env.generate_of_accepts hok hd hr
        rw [he]
        exact .written hy hr hg ht
      · obtain ⟨t, he, hg⟩ := Env.generate_of_refused hok hd hr hf
        rw [he]
        exact .refused hy hd hr hf hg
    · cases hc : firstConflict s [] fs with
      | none => exact absurd ((firstConflict_eq_none_iff_accepts s fs).mp hc) hd
      | some name =>
        have he : env.generate s roots = (s, ⟨(env.render roots).events,
            .error (.failed (writeFailure name (.alreadyCreated name)))⟩) := by
          simp only [Env.generate, h, hc, Trial.events_within]
        rw [he]
        exact .conflict hy hd

theorem Env.render_ne_refusal (env : Env) (roots : List String) (name message : String) :
    ((env.render roots).within .generate).result ≠ .error (.refusal name message) := by
  intro h
  obtain ⟨g, hg, he⟩ := Trial.within_eq_failed.mp h
  have hr := (env.renders_render roots).failure g hg
  have hc : g.cause = .output (.refused message) := congrArg Failure.cause he.symm
  rw [Failure.OfRendering, hc] at hr
  exact hr

namespace RoundEnds

variable {env : Env} {s t : σ} {roots : List String} {x : Trial (List OutputFile)}

theorem of_ok (h : RoundEnds env s roots t x) {fs : List OutputFile} (hx : x.result = .ok fs) :
    env.Yields roots fs ∧ (∀ f ∈ fs, refusal s f.qualifiedName = none) ∧
      Gains (files s) (files t) fs := by
  cases h with
  | stopped => cases hx
  | conflict => cases hx
  | refused => cases hx
  | written hy hr hg =>
    cases hx
    exact ⟨hy, hr, hg⟩

theorem of_refusal (h : RoundEnds env s roots t x) {name message : String}
    (hx : x.result = .error (.refusal name message)) : ∃ written f rest,
      env.Yields roots (written ++ f :: rest) ∧ Accepts (files s) (written ++ f :: rest) ∧
      (∀ g ∈ written, refusal s g.qualifiedName = none) ∧
      refusal s f.qualifiedName = some message ∧ f.qualifiedName = name ∧
      Gains (files s) (files t) written := by
  cases h with
  | stopped h => exact absurd (h.trans hx) (env.render_ne_refusal roots name message)
  | conflict => cases hx
  | refused hy hd hr hf hg =>
    cases hx
    exact ⟨_, _, _, hy, hd, hr, hf, rfl, hg⟩
  | written => cases hx

theorem of_failure (h : RoundEnds env s roots t x) {stop : Stop} (hx : x.result = .error stop)
    (hs : ∀ name message, stop ≠ .refusal name message) : t = s := by
  cases h with
  | stopped => rfl
  | conflict => rfl
  | refused =>
    cases hx
    exact absurd rfl (hs _ _)
  | written => cases hx

/-- However a round ends, no entry is lost or changed. -/
theorem get?_of_some (h : RoundEnds env s roots t x) {name text : String}
    (hs : Dict.get? (files s) name = some text) : Dict.get? (files t) name = some text := by
  cases h with
  | stopped => exact hs
  | conflict => exact hs
  | refused _ _ _ _ hg => exact hg.get?_of_some hs
  | written _ _ hg => exact hg.get?_of_some hs

end RoundEnds

end Ends

inductive Step
  | process (round : Round)
  | generate (roots : List String)
  | write (f : OutputFile)

namespace Processor

variable {σ : Type}

def step [Filer σ] (p : Processor σ) : Step → Processor σ
  | .process round => (p.process round).2
  | .generate roots => (p.generate roots).1
  | .write f => (p.write f).1

def run [Filer σ] (p : Processor σ) (steps : List Step) : Processor σ := steps.foldl step p

variable [KeepingFiler σ]

theorem step_get?_of_some (p : Processor σ) (action : Step) {name text : String}
    (h : Dict.get? (files p.filer) name = some text) :
    Dict.get? (files (p.step action).filer) name = some text := by
  cases action with
  | process round => exact (p.env.generate_ends p.filer round.roots).get?_of_some h
  | generate roots => exact (p.env.generate_ends p.filer roots).get?_of_some h
  | write f => exact write_get?_of_some p.filer f h

theorem run_get?_of_some (p : Processor σ) (steps : List Step) {name text : String}
    (h : Dict.get? (files p.filer) name = some text) :
    Dict.get? (files (p.run steps).filer) name = some text := by
  induction steps generalizing p with
  | nil => exact h
  | cons action rest ih => exact ih (p.step action) (p.step_get?_of_some action h)

/-- A round succeeds exactly when the files of its containers have distinct names, none of which is
held or refused, and then it adds exactly these files. If a name is refused, it adds exactly the
files before the first refused one. In any other case it adds nothing. A round is processed in the
way it is generated, and the end of it is reported. So in every run of rounds and direct writes an
entry stays as it is from its first appearance on. -/
theorem rounds_atomic_entries_permanent (p : Processor σ) :
    (∀ roots : List String,
      (∀ fs, (p.generate roots).2 = .ok fs ↔ p.env.Yields roots fs ∧
        Accepts (files p.filer) fs ∧ ∀ f ∈ fs, refusal p.filer f.qualifiedName = none) ∧
      (∀ fs, (p.generate roots).2 = .ok fs →
        Gains (files p.filer) (files (p.generate roots).1.filer) fs) ∧
      (∀ name message, (p.generate roots).2 = .error (.refusal name message) ↔
        ∃ written f rest, p.env.Yields roots (written ++ f :: rest) ∧
          Accepts (files p.filer) (written ++ f :: rest) ∧
          (∀ g ∈ written, refusal p.filer g.qualifiedName = none) ∧
          refusal p.filer f.qualifiedName = some message ∧ f.qualifiedName = name ∧
          Gains (files p.filer) (files (p.generate roots).1.filer) written) ∧
      (∀ stop, (p.generate roots).2 = .error stop →
        (∀ name message, stop ≠ .refusal name message) →
        (p.generate roots).1.filer = p.filer)) ∧
    (∀ round : Round, (p.process round).2.filer = (p.generate round.roots).1.filer ∧
      (p.process round).2.events = (p.generate round.roots).1.events ++
        [match (p.generate round.roots).2 with
          | .ok fs => .completed fs.length
          | .error stop => .failed stop.failure]) ∧
    (∀ (steps more : List Step) (name text : String),
      Dict.get? (files (p.run steps).filer) name = some text →
        Dict.get? (files (p.run (steps ++ more)).filer) name = some text) := by
  refine ⟨fun roots => ?_, fun round => ⟨rfl, rfl⟩, ?_⟩
  · have ends := p.env.generate_ends p.filer roots
    refine ⟨fun fs => ⟨?_, ?_⟩, ?_, fun name message => ⟨?_, ?_⟩, ?_⟩
    · intro h
      obtain ⟨hy, hr, hg⟩ := ends.of_ok h
      exact ⟨hy, hg.toAccepts, hr⟩
    · rintro ⟨hy, hd, hr⟩
      obtain ⟨t, he, -⟩ := Env.generate_of_accepts (Env.render_eq_ok_iff_yields.mpr hy) hd hr
      simp only [generate, he]
    · intro fs h
      exact (ends.of_ok h).2.2
    · intro h
      exact ends.of_refusal h
    · rintro ⟨written, f, rest, hy, hd, hr, hf, rfl, -⟩
      obtain ⟨t, he, -⟩ := Env.generate_of_refused (Env.render_eq_ok_iff_yields.mpr hy) hd hr hf
      simp only [generate, he]
    · intro stop h hs
      exact ends.of_failure h hs
  · intro steps more name text h
    rw [run, List.foldl_append]
    exact (p.run steps).run_get?_of_some more h

end Processor

def twoContainers : Classpath := .ofList [bareContainer "a.Foo", bareContainer "b.Foo"]

def secondRefused : Processor RefusingFiler :=
  .start ⟨.ofClasspath twoContainers, .default⟩
    ⟨.empty, fun name => if name = "b.FooModule" then some "locked" else none⟩

/-- A refused second module leaves the first one written. -/
theorem secondRefused_writes_first :
    (secondRefused.generate ["a.Foo", "b.Foo"]).2 = .error (.refusal "b.FooModule" "locked") ∧
    Dict.keys (files (secondRefused.generate ["a.Foo", "b.Foo"]).1.filer) = ["a.FooModule"] ∧
    ∃ written, Gains [] (files (secondRefused.generate ["a.Foo", "b.Foo"]).1.filer) written := by
  refine ⟨rfl, rfl, ?_⟩
  have hround := secondRefused.rounds_atomic_entries_permanent.1 ["a.Foo", "b.Foo"]
  obtain ⟨written, f, rest, -, -, -, -, -, hg⟩ := (hround.2.2.1 "b.FooModule" "locked").mp rfl
  exact ⟨written, hg⟩

end Provisioning
