import Provisioning.Proofs.Files.Tree
import Provisioning.Proofs.Round.Rearrangement
import Provisioning.Report

/-! # A run in memory predicts the run in a directory

The two filers keep different things, but they agree on which names have been
created, and that is all a round asks them. A write tells them apart only when
the system refuses it. So as long as none is refused, both runs go through the
same rounds with the same answers.
-/

namespace Provisioning

open KeepingFiler (files refusal)

def Failure.OfSystem (f : Failure) : Prop := ∃ e, f.cause = .output (.system e)

/-- No round of the processor has failed because the system refused a write. -/
def Processor.SystemAccepts {σ : Type} (p : Processor σ) : Prop :=
  ∀ f, Event.failed f ∈ p.events → ¬ f.OfSystem

def Trial.StopsAtSystem {α : Type} (x : Trial α) : Prop :=
  ∃ f, x.result = .error (.failed f) ∧ f.OfSystem

section Lockstep

/-- Two recorded filers, one in memory and one below a directory, that have accepted the same files
and hold the same names for created. -/
structure Alike (s : Recorded MemoryFiler) (t : Recorded DirectoryFiler) : Prop where
  accepted : s.accepted = t.accepted
  created : ∀ name, Filer.isCreated s name = Filer.isCreated t name

namespace Alike

variable {s : Recorded MemoryFiler} {t : Recorded DirectoryFiler}

/-- One write: the system refuses it, or the filers answer alike and stay alike. -/
theorem write (h : Alike s t) (f : OutputFile) : (∃ e, (t.write f).2 = .error (.system e)) ∨
    (s.write f).2 = (t.write f).2 ∧ Alike (s.write f).1 (t.write f).1 := by
  have hname : Dict.contains s.inner.files f.qualifiedName =
      t.inner.created.contains f.qualifiedName := h.created f.qualifiedName
  have hmemory : Filer.write s.inner f = s.inner.write f := rfl
  have hdirectory : Filer.write t.inner f = t.inner.write f := rfl
  cases hc : t.inner.created.contains f.qualifiedName with
  | true =>
    obtain ⟨text, htext⟩ := (Dict.contains_eq_true_iff _ _).mp (hname.trans hc)
    right
    simp only [Recorded.write, hmemory, hdirectory, MemoryFiler.write_of_held _ f text htext,
      DirectoryFiler.write_of_created hc]
    exact ⟨trivial, h⟩
  | false =>
    have hfresh := (Dict.contains_eq_false_iff _ _).mp (hname.trans hc)
    rcases DirectoryFiler.store_eq t.inner.root t.inner.tree f with ⟨e, he⟩ | hok
    · left
      refine ⟨e, ?_⟩
      simp only [Recorded.write, hdirectory, DirectoryFiler.write_of_new hc, he]
    · right
      simp only [Recorded.write, hmemory, hdirectory, MemoryFiler.write_of_fresh _ f hfresh,
        DirectoryFiler.write_of_new hc, hok]
      refine ⟨trivial, congrArg (· ++ [f]) h.accepted, fun name => ?_⟩
      have hother : Dict.contains s.inner.files name = t.inner.created.contains name :=
        h.created name
      change Dict.contains (Dict.put s.inner.files f.qualifiedName f.contents) name =
        (t.inner.created ++ [f.qualifiedName]).contains name
      by_cases hn : name = f.qualifiedName
      · simp [Dict.contains, Dict.get?_put, hn]
      · rw [Dict.contains, Dict.get?_put, if_neg hn, ← Dict.contains, hother]
        simp [hn]

theorem firstConflict (h : Alike s t) (seen : List String) (fs : List OutputFile) :
    Provisioning.firstConflict s seen fs = Provisioning.firstConflict t seen fs := by
  induction fs generalizing seen with
  | nil => rfl
  | cons f rest ih =>
    unfold Provisioning.firstConflict
    rw [h.created, ih]

theorem writeAll (h : Alike s t) (fs : List OutputFile) :
    (Provisioning.writeAll t fs).2.StopsAtSystem ∨
      (Provisioning.writeAll s fs).2 = (Provisioning.writeAll t fs).2 ∧
        Alike (Provisioning.writeAll s fs).1 (Provisioning.writeAll t fs).1 := by
  induction fs generalizing s t with
  | nil => exact .inr ⟨rfl, h⟩
  | cons f rest ih =>
    have hs : Filer.write s f = s.write f := rfl
    have ht : Filer.write t f = t.write f := rfl
    rcases h.write f with ⟨e, he⟩ | ⟨hresult, hnext⟩
    · left
      refine ⟨writeFailure f.qualifiedName (.system e), ?_, e, rfl⟩
      simp only [Provisioning.writeAll, ht]
      rw [show t.write f = ((t.write f).1, .error (.system e)) from Prod.ext rfl he]
      rfl
    · cases hw : (t.write f).2 with
      | error e =>
        right
        simp only [Provisioning.writeAll, hs, ht]
        rw [show s.write f = ((s.write f).1, .error e) from Prod.ext rfl (hresult.trans hw),
          show t.write f = ((t.write f).1, .error e) from Prod.ext rfl hw]
        exact ⟨rfl, hnext⟩
      | ok u =>
        have hwrites : s.write f = ((s.write f).1, .ok ()) := Prod.ext rfl (hresult.trans hw)
        have hwritet : t.write f = ((t.write f).1, .ok ()) := Prod.ext rfl hw
        simp only [Provisioning.writeAll, hs, ht]
        rw [hwrites, hwritet]
        rcases ih hnext with ⟨g, hg, hsystem⟩ | ⟨hmore, hlast⟩
        · exact .inl ⟨g, hg, hsystem⟩
        · exact .inr ⟨by simp only [hmore], hlast⟩

/-- One round: the system refuses a write of it, or both filers go through it alike. -/
theorem generate (h : Alike s t) (env : Env) (roots : List String) :
    (env.generate t roots).2.StopsAtSystem ∨
      (env.generate s roots).2 = (env.generate t roots).2 ∧
        Alike (env.generate s roots).1 (env.generate t roots).1 := by
  cases hrender : ((env.render roots).within .generate).result with
  | error stop =>
    right
    simp only [Env.generate, hrender]
    exact ⟨trivial, h⟩
  | ok fs =>
    have hconflict := h.firstConflict [] fs
    cases hname : Provisioning.firstConflict t [] fs with
    | some name =>
      right
      simp only [Env.generate, hrender, hconflict, hname]
      exact ⟨trivial, h⟩
    | none =>
      simp only [Env.generate, hrender, hconflict, hname]
      rcases h.writeAll fs with ⟨f, hf, hsystem⟩ | ⟨hwritten, hnext⟩
      · exact .inl ⟨f, by simp only [hf]; rfl, hsystem⟩
      · exact .inr ⟨by rw [hwritten], hnext⟩

end Alike

end Lockstep

namespace Processor

section Rounds

variable {σ : Type} [Filer σ]

/-- The processor with the start of a round recorded. -/
def announce (p : Processor σ) (index : Nat) (round : Round) : Processor σ :=
  { p with events := p.events ++ [.started index round.roots.length] }

def answersFrom (index : Nat) : List Round → Processor σ → List (Except Stop (List OutputFile))
  | [], _ => []
  | round :: rest, p =>
    (p.generate round.roots).2 ::
      answersFrom (index + 1) rest ((p.announce index round).process round).2

theorem mem_events_process {p : Processor σ} {e : Event} (h : e ∈ p.events) (round : Round) :
    e ∈ (p.process round).2.events :=
  List.mem_append_left _ (List.mem_append_left _ h)

theorem mem_events_runFrom {p : Processor σ} {e : Event} (h : e ∈ p.events) (index : Nat)
    (rounds : List Round) : e ∈ (runFrom index rounds p).events := by
  induction rounds generalizing p index with
  | nil => exact h
  | cons round rest ih =>
    exact ih (mem_events_process (p := p.announce index round) (List.mem_append_left _ h) round)
      (index + 1)

theorem process_last (p : Processor σ) : (p.process .last).2 =
    { p with events := p.events ++ [.discovered 0 0, .completed 0], phase := .idle } := by
  have hlast : p.env.generate p.filer Round.last.roots = (p.filer, ⟨[.discovered 0 0], .ok []⟩) := rfl
  simp only [process, hlast, outcome, List.append_assoc]
  rfl

end Rounds

structure Lockstep (p : Processor (Recorded MemoryFiler)) (q : Processor (Recorded DirectoryFiler)) :
    Prop where
  env : p.env = q.env
  events : p.events = q.events
  filer : Alike p.filer q.filer

namespace Lockstep

variable {p : Processor (Recorded MemoryFiler)} {q : Processor (Recorded DirectoryFiler)}

theorem announce (h : Lockstep p q) (index : Nat) (round : Round) :
    Lockstep (p.announce index round) (q.announce index round) :=
  ⟨h.env, congrArg (· ++ _) h.events, h.filer⟩

theorem process (h : Lockstep p q) (round : Round) :
    (∃ f, Event.failed f ∈ (q.process round).2.events ∧ f.OfSystem) ∨
      (p.generate round.roots).2 = (q.generate round.roots).2 ∧
        Lockstep (p.process round).2 (q.process round).2 := by
  rcases h.filer.generate q.env round.roots with ⟨f, hf, hsystem⟩ | ⟨htrial, hfiler⟩
  · left
    have hout : outcome (q.env.generate q.filer round.roots).2 = .failed f := by
      rw [outcome, hf]
      rfl
    exact ⟨f, List.mem_append_right _ (List.mem_singleton.mpr hout.symm), hsystem⟩
  · right
    refine ⟨?_, h.env, ?_, ?_⟩
    · simp only [Processor.generate, h.env, htrial]
    · simp only [Processor.process, h.env, h.events, htrial]
    · simp only [Processor.process, h.env]
      exact hfiler

theorem runFrom (h : Lockstep p q) (index : Nat) (rounds : List Round) :
    (∃ f, Event.failed f ∈ (Provisioning.runFrom index rounds q).events ∧ f.OfSystem) ∨
      answersFrom index rounds p = answersFrom index rounds q ∧
        Lockstep (Provisioning.runFrom index rounds p) (Provisioning.runFrom index rounds q) := by
  induction rounds generalizing p q index with
  | nil => exact .inr ⟨rfl, h⟩
  | cons round rest ih =>
    rcases (h.announce index round).process round with ⟨f, hf, hsystem⟩ | ⟨hanswer, hnext⟩
    · exact .inl ⟨f, mem_events_runFrom hf (index + 1) rest, hsystem⟩
    · rcases ih hnext (index + 1) with hstop | ⟨hrest, hlast⟩
      · exact .inl hstop
      · exact .inr ⟨congrArg₂ List.cons hanswer hrest, hlast⟩

end Lockstep

end Processor

section Answers

instance {σ : Type} [KeepingFiler σ] : KeepingFiler (Recorded σ) where
  files s := files s.inner
  refusal s := refusal s.inner
  isCreated_eq s name := KeepingFiler.isCreated_eq s.inner name
  write_of_refused s f message h := by
    change s.write f = _
    rw [Recorded.write, KeepingFiler.write_of_refused s.inner f message h]
  write_of_held s f text hr h := by
    change s.write f = _
    rw [Recorded.write, KeepingFiler.write_of_held s.inner f text hr h]
  write_of_fresh s f hr h := by
    obtain ⟨t, ht, htr, htf⟩ := KeepingFiler.write_of_fresh s.inner f hr h
    refine ⟨⟨t, s.accepted ++ [f]⟩, ?_, htr, htf⟩
    change s.write f = _
    rw [Recorded.write, ht]

variable {σ : Type} [Filer σ]

theorem Recorded.accepted_writeAll {s : Recorded σ} {fs : List OutputFile}
    (h : (writeAll s fs).2.result = .ok ()) : (writeAll s fs).1.accepted = s.accepted ++ fs := by
  induction fs generalizing s with
  | nil => exact (List.append_nil _).symm
  | cons f rest ih =>
    have hfiler : Filer.write s f = s.write f := rfl
    cases hw : Filer.write s.inner f with
    | mk inner result =>
      cases result with
      | error e =>
        simp only [writeAll, hfiler, Recorded.write, hw] at h
        cases h
      | ok u =>
        simp only [writeAll, hfiler, Recorded.write, hw] at h ⊢
        rw [ih h, List.append_assoc]
        rfl

theorem Env.accepted_generate {env : Env} {s : Recorded σ} {roots : List String}
    {fs : List OutputFile} (h : (env.generate s roots).2.result = .ok fs) :
    (env.generate s roots).1.accepted = s.accepted ++ fs := by
  cases hrender : ((env.render roots).within .generate).result with
  | error stop =>
    simp only [Env.generate, hrender] at h
    cases h
  | ok rendered =>
    cases hname : firstConflict s [] rendered with
    | some name =>
      simp only [Env.generate, hrender, hname] at h
      cases h
    | none =>
      simp only [Env.generate, hrender, hname] at h ⊢
      cases hw : (writeAll s rendered).2.result with
      | error stop =>
        rw [hw] at h
        cases h
      | ok u =>
        rw [hw] at h
        cases h
        exact Recorded.accepted_writeAll hw

def filesOf (answers : List (Except Stop (List OutputFile))) : List OutputFile :=
  (answers.filterMap Except.toOption).flatten

def failuresIn (answers : List (Except Stop (List OutputFile))) : Nat :=
  answers.countP fun answer => !answer.isOk

/-- What some rounds in memory have added: the files of those that succeeded, and an error for each
of the others. -/
structure Adds (p q : Processor (Recorded MemoryFiler))
    (answers : List (Except Stop (List OutputFile))) : Prop where
  accepted : q.filer.accepted = p.filer.accepted ++ filesOf answers
  gains : Gains (files p.filer) (files q.filer) (filesOf answers)
  errors : q.log.errors.length = p.log.errors.length + failuresIn answers

theorem Log.errors_append (a b : Log) : Log.errors (a ++ b) = Log.errors a ++ Log.errors b :=
  List.filter_append _ _

theorem Log.errors_eq_nil {log : Log} (h : log.hasErrors = false) : log.errors = [] := by
  rw [Log.hasErrors, List.any_eq_false] at h
  exact List.filter_eq_nil_iff.mpr h

namespace Processor

variable (p : Processor (Recorded MemoryFiler))

theorem errors_process (round : Round) : (p.process round).2.log.errors.length =
    p.log.errors.length + failuresIn [(p.generate round.roots).2] := by
  rw [p.log_process round, Log.errors_append, Log.errors_append,
    Log.errors_eq_nil (Env.hasErrors_generate _ _ _), List.append_nil, List.length_append]
  congr 1
  cases (p.generate round.roots).2 with
  | ok fs => rfl
  | error stop =>
    simp [closing, Log.errors, stop.failure.severity_diagnostic, failuresIn, Except.isOk,
      Except.toBool]

theorem adds_process (round : Round) :
    Adds p (p.process round).2 [(p.generate round.roots).2] := by
  have ends := p.env.generate_ends p.filer round.roots
  have hanswer : (p.generate round.roots).2 = (p.env.generate p.filer round.roots).2.result := rfl
  have herrors := p.errors_process round
  cases hx : (p.env.generate p.filer round.roots).2.result with
  | ok fs =>
    have hfiles : filesOf [(p.generate round.roots).2] = fs := by
      rw [hanswer, hx]
      exact List.append_nil fs
    refine ⟨?_, ?_, herrors⟩
    · rw [hfiles]
      exact Env.accepted_generate hx
    · rw [hfiles]
      exact (ends.of_ok hx).2.2
  | error stop =>
    have hfiles : filesOf [(p.generate round.roots).2] = [] := by
      rw [hanswer, hx]
      rfl
    have hstay : (p.process round).2.filer = p.filer := by
      refine ends.of_failure hx ?_
      rintro name message rfl
      obtain ⟨written, f, rest, -, -, -, hf, -, -⟩ := ends.of_refusal hx
      cases hf
    refine ⟨?_, ?_, herrors⟩
    · rw [hfiles, hstay, List.append_nil]
    · rw [hfiles, hstay]
      exact Gains.refl _

end Processor

theorem filesOf_append (as bs : List (Except Stop (List OutputFile))) :
    filesOf (as ++ bs) = filesOf as ++ filesOf bs := by
  rw [filesOf, List.filterMap_append, List.flatten_append]
  rfl

theorem failuresIn_append (as bs : List (Except Stop (List OutputFile))) :
    failuresIn (as ++ bs) = failuresIn as + failuresIn bs := List.countP_append

theorem Adds.trans {p q r : Processor (Recorded MemoryFiler)}
    {as bs : List (Except Stop (List OutputFile))} (h₁ : Adds p q as) (h₂ : Adds q r bs) :
    Adds p r (as ++ bs) := by
  refine ⟨?_, ?_, ?_⟩
  · rw [h₂.accepted, h₁.accepted, filesOf_append, List.append_assoc]
  · rw [filesOf_append]
    exact h₁.gains.trans h₂.gains
  · rw [h₂.errors, h₁.errors, failuresIn_append, Nat.add_assoc]

theorem Processor.adds_announce (p : Processor (Recorded MemoryFiler)) (index : Nat) (round : Round) :
    Adds p (p.announce index round) [] := by
  refine ⟨(List.append_nil _).symm, Gains.refl _, ?_⟩
  have hnone : diagnostics [.started index round.roots.length] = [] := rfl
  rw [log, announce, diagnostics_append, hnone, List.append_nil]
  rfl

theorem Processor.adds_runFrom (p : Processor (Recorded MemoryFiler)) (index : Nat)
    (rounds : List Round) : Adds p (runFrom index rounds p) (answersFrom index rounds p) := by
  induction rounds generalizing p index with
  | nil => exact ⟨(List.append_nil _).symm, Gains.refl _, rfl⟩
  | cons round rest ih =>
    have hround := (p.adds_announce index round).trans ((p.announce index round).adds_process round)
    exact hround.trans (ih _ (index + 1))

end Answers

namespace Universe

section

variable {σ : Type} [Filer σ]

def started (u : Universe) (markers : Markers) (filer : σ) : Processor (Recorded σ) :=
  .start ⟨.ofClasspath u.classpath, markers⟩ ⟨filer, []⟩

def answers (u : Universe) (markers : Markers) (filer : σ) :
    List (Except Stop (List OutputFile)) :=
  (u.started markers filer).answersFrom 0 u.roundList

def beforeLast (u : Universe) (markers : Markers) (filer : σ) : Processor (Recorded σ) :=
  runFrom 0 u.roundList (u.started markers filer)

theorem run_eq (u : Universe) (markers : Markers) (filer : σ) : u.run markers filer =
    { u.beforeLast markers filer with
      events := (u.beforeLast markers filer).events ++ [.discovered 0 0, .completed 0]
      phase := .idle } :=
  Processor.process_last _

theorem filer_run (u : Universe) (markers : Markers) (filer : σ) :
    (u.run markers filer).filer = (u.beforeLast markers filer).filer := by
  rw [run_eq]

theorem report_run (u : Universe) (markers : Markers) (filer : σ) :
    (u.run markers filer).report = (u.beforeLast markers filer).report := by
  rw [run_eq, Processor.report, Processor.log, diagnostics_append]
  simp [Processor.report, Processor.log, diagnostics, Event.diagnostic?]

end

end Universe

/-- The report of rounds with these answers: the files of the rounds that succeeded, in order and
under distinct names, and one error for every round that failed. -/
structure Report.Reflects (r : Report) (answers : List (Except Stop (List OutputFile))) : Prop where
  files : r.files = filesOf answers
  distinct : (r.files.map OutputFile.qualifiedName).Nodup
  errors : r.errorCount = failuresIn answers

theorem Universe.reflects_memory (u : Universe) (markers : Markers) :
    (u.run markers MemoryFiler.empty).report.Reflects (u.answers markers MemoryFiler.empty) := by
  have hadds := (u.started markers MemoryFiler.empty).adds_runFrom 0 u.roundList
  rw [report_run]
  refine ⟨hadds.accepted, ?_, ?_⟩
  · have hfiles : (u.beforeLast markers MemoryFiler.empty).report.files =
        filesOf (u.answers markers MemoryFiler.empty) := hadds.accepted
    rw [hfiles]
    exact hadds.gains.distinct
  · exact hadds.errors.trans (Nat.zero_add _)

theorem Universe.lockstep (u : Universe) (markers : Markers) (root : String) (tree : FileTree)
    (h : (u.run markers (DirectoryFiler.ofRoot root tree)).SystemAccepts) :
    u.answers markers MemoryFiler.empty = u.answers markers (DirectoryFiler.ofRoot root tree) ∧
      (u.beforeLast markers MemoryFiler.empty).Lockstep
        (u.beforeLast markers (DirectoryFiler.ofRoot root tree)) := by
  have hstart : (u.started markers MemoryFiler.empty).Lockstep
      (u.started markers (DirectoryFiler.ofRoot root tree)) := ⟨rfl, rfl, rfl, fun _ => rfl⟩
  refine (hstart.runFrom 0 u.roundList).resolve_left ?_
  rintro ⟨f, hf, hsystem⟩
  refine h f ?_ hsystem
  rw [run_eq]
  exact List.mem_append_left _ hf

/-- As long as the system accepts all writes, a run below a directory reports what a run in memory
reports. Either report holds the files of the rounds that succeeded and an error for each that
failed, and the empty last round has no part in it. -/
theorem Universe.memory_predicts_directory (u : Universe) (markers : Markers) (root : String)
    (tree : FileTree)
    (h : (u.run markers (DirectoryFiler.ofRoot root tree)).SystemAccepts) :
    let predicted := (u.runIn markers .memory tree).1
    let written := (u.runIn markers (.directory root) tree).1
    written = predicted ∧
      u.answers markers (DirectoryFiler.ofRoot root tree) = u.answers markers MemoryFiler.empty ∧
      predicted.Reflects (u.answers markers MemoryFiler.empty) ∧
      written.Reflects (u.answers markers (DirectoryFiler.ofRoot root tree)) ∧
      predicted = (u.beforeLast markers MemoryFiler.empty).report ∧
      written = (u.beforeLast markers (DirectoryFiler.ofRoot root tree)).report ∧
      (u.runIn markers (.directory root) tree).2 =
        (u.beforeLast markers (DirectoryFiler.ofRoot root tree)).filer.inner.tree := by
  intro predicted written
  obtain ⟨hanswers, hlockstep⟩ := u.lockstep markers root tree h
  have hpredicted : predicted = (u.beforeLast markers MemoryFiler.empty).report :=
    u.report_run markers _
  have hwritten : written = (u.beforeLast markers (DirectoryFiler.ofRoot root tree)).report :=
    u.report_run markers _
  have hsame : written = predicted := by
    rw [hwritten, hpredicted, Processor.report, Processor.report, Processor.log, Processor.log,
      hlockstep.events, hlockstep.filer.accepted]
  have hmemory : predicted.Reflects (u.answers markers MemoryFiler.empty) :=
    u.reflects_memory markers
  refine ⟨hsame, hanswers.symm, hmemory, ?_, hpredicted, hwritten, ?_⟩
  · rw [hsame, ← hanswers]
    exact hmemory
  · exact congrArg (fun s : Recorded DirectoryFiler => s.inner.tree) (u.filer_run markers _)

def Event.cause? : Event → Option Cause
  | .failed f => some f.cause
  | _ => none

def againInBetween : Universe :=
  ⟨[bareContainer "a.Foo", bareContainer "b.Foo"], some [["a.Foo"], ["b.Foo", "a.Foo"], ["b.Foo"]]⟩

theorem againInBetween_predicted :
    (againInBetween.run .default (DirectoryFiler.ofRoot "out" .fresh)).SystemAccepts ∧
      (againInBetween.runIn .default (.directory "out") .fresh).1 =
        (againInBetween.runIn .default .memory .fresh).1 ∧
      (againInBetween.runIn .default (.directory "out") .fresh).1.errorCount = 1 := by
  have hfailed : (againInBetween.run .default (DirectoryFiler.ofRoot "out" .fresh)).events.filterMap
      Event.cause? = [.output (.alreadyCreated "a.FooModule")] := by
    decide +kernel
  have hsystem : (againInBetween.run .default (DirectoryFiler.ofRoot "out" .fresh)).SystemAccepts := by
    rintro f hf ⟨e, he⟩
    have hcause : f.cause ∈ [Cause.output (.alreadyCreated "a.FooModule")] :=
      hfailed ▸ List.mem_filterMap.mpr ⟨_, hf, rfl⟩
    rw [List.mem_singleton, he] at hcause
    cases hcause
  obtain ⟨hsame, -, hreflects, -⟩ :=
    againInBetween.memory_predicts_directory .default "out" .fresh hsystem
  refine ⟨hsystem, hsame, ?_⟩
  rw [hsame, hreflects.errors]
  decide +kernel

end Provisioning
