import Provisioning.Proofs.Round.Atomic
import Provisioning.Proofs.Round.Reporting

/-! # Order and grouping of roots

A run of rounds succeeds exactly when all roots are known, every container has a
file, and these files can be added together. The condition speaks of the list of
containers only, and it does not change when that list is permuted. So the roots
may be spread over rounds in any way that keeps each container in one of them.
-/

namespace Provisioning

open KeepingFiler (files refusal)

section Reports

theorem Log.hasErrors_append (a b : Log) :
    Log.hasErrors (a ++ b) = (Log.hasErrors a || Log.hasErrors b) := List.any_append

theorem Log.warnings_append (a b : Log) :
    Log.warnings (a ++ b) = Log.warnings a ++ Log.warnings b := List.filter_append _ _

theorem diagnostics_generated (fs : List OutputFile) :
    diagnostics (fs.map fun f => .generated f.qualifiedName) = [] := by
  induction fs with
  | nil => rfl
  | cons f rest ih => exact ih

theorem Log.hasErrors_closing (result : Except Stop (List OutputFile)) :
    Log.hasErrors (closing result) = !result.isOk := by
  cases result with
  | ok files => rfl
  | error stop => simp [closing, Log.hasErrors, stop.failure.severity_diagnostic, Except.isOk,
      Except.toBool]

/-- What happens in a round is not reported as an error until its end. -/
theorem Env.hasErrors_generate {σ : Type} [Filer σ] (env : Env) (s : σ) (roots : List String) :
    Log.hasErrors (diagnostics (env.generate s roots).2.events) = false := by
  rw [diagnostics_generate, Log.hasErrors, List.any_eq_false]
  intro d hd
  simp [(env.renders_render roots).warns d hd]

end Reports

def warningsOf (events : List Event) : List Diagnostic := Log.warnings (diagnostics events)

theorem warningsOf_append (a b : List Event) : warningsOf (a ++ b) = warningsOf a ++ warningsOf b := by
  rw [warningsOf, diagnostics_append, Log.warnings_append]
  rfl

theorem warningsOf_flatMap {α : Type} (l : List α) (f : α → List Event) :
    warningsOf (l.flatMap f) = l.flatMap fun a => warningsOf (f a) := by
  induction l with
  | nil => rfl
  | cons a rest ih => rw [List.flatMap_cons, warningsOf_append, ih, List.flatMap_cons]

section Runs

variable {cp : Classpath} {markers : Markers}

def HaveFiles (cp : Classpath) (markers : Markers) (containers : List Container)
    (fs : List OutputFile) : Prop :=
  List.Forall₂ (fun c f => ((Env.ofClasspath cp markers).renderOne c).result = .ok f) containers fs

def warningsAbout (cp : Classpath) (markers : Markers) (containers : List Container) :
    List Diagnostic :=
  containers.flatMap fun c => warningsOf ((Env.ofClasspath cp markers).renderOne c).events

def containersOf (cp : Classpath) (markers : Markers) (rounds : List Round) : List Container :=
  rounds.flatMap fun round => Env.containersAt cp markers round.roots

theorem yields_iff {roots : List String} {fs : List OutputFile} :
    (Env.ofClasspath cp markers).Yields roots fs ↔
      cp.Known roots ∧ HaveFiles cp markers (Env.containersAt cp markers roots) fs := by
  simp only [Env.Yields, Env.discover_eq_ok]
  constructor
  · rintro ⟨containers, ⟨hk, rfl⟩, hf⟩
    exact ⟨hk, hf⟩
  · rintro ⟨hk, hf⟩
    exact ⟨_, ⟨hk, rfl⟩, hf⟩

theorem warningsOf_render {roots : List String} {fs : List OutputFile}
    (h : (Env.ofClasspath cp markers).Yields roots fs) :
    warningsOf ((Env.ofClasspath cp markers).render roots).events =
      warningsAbout cp markers (Env.containersAt cp markers roots) := by
  obtain ⟨hk, hf⟩ := yields_iff.mp h
  have hd := (Env.discover_eq_ok cp markers).mpr ⟨hk, rfl⟩
  unfold Env.render
  rw [Trial.bind_of_ok _ hd, Trial.events_forAll (Trial.forAll_eq_ok.mpr hf), warningsOf_append,
    Env.events_discover cp markers hk, warningsOf_flatMap]
  rfl

theorem haveFiles_append_iff {as bs : List Container} {fs : List OutputFile} :
    HaveFiles cp markers (as ++ bs) fs ↔ ∃ xs ys, fs = xs ++ ys ∧
      HaveFiles cp markers as xs ∧ HaveFiles cp markers bs ys := by
  constructor
  · intro h
    induction as generalizing fs with
    | nil => exact ⟨[], fs, rfl, .nil, h⟩
    | cons c rest ih =>
      cases h with
      | cons hc hrest =>
        obtain ⟨xs, ys, rfl, hx, hy⟩ := ih hrest
        exact ⟨_ :: xs, ys, rfl, .cons hc hx, hy⟩
  · rintro ⟨xs, ys, rfl, hx, hy⟩
    exact List.rel_append hx hy

theorem HaveFiles.map_eq {containers : List Container} {fs : List OutputFile}
    (h : HaveFiles cp markers containers fs) :
    containers.map (fun c => ((Env.ofClasspath cp markers).renderOne c).result) =
      fs.map Except.ok := by
  rw [← List.forall₂_eq_eq_eq, List.forall₂_map_left_iff, List.forall₂_map_right_iff]
  exact h

theorem HaveFiles.exists_file {containers : List Container} {fs : List OutputFile}
    (h : HaveFiles cp markers containers fs) {c : Container} (hc : c ∈ containers) :
    ∃ f ∈ fs, ((Env.ofClasspath cp markers).renderOne c).result = .ok f := by
  have hm := List.mem_map_of_mem
    (f := fun c => ((Env.ofClasspath cp markers).renderOne c).result) hc
  rw [h.map_eq] at hm
  obtain ⟨f, hf, he⟩ := List.mem_map.mp hm
  exact ⟨f, hf, he.symm⟩

theorem HaveFiles.nodup {containers : List Container} {fs : List OutputFile}
    (h : HaveFiles cp markers containers fs) (hn : (fs.map OutputFile.qualifiedName).Nodup) :
    containers.Nodup := by
  have he := h.map_eq
  have hok : (fs.map (Except.ok (ε := Stop))).Nodup :=
    (List.Nodup.of_map _ hn).map fun _ _ h => Except.ok.inj h
  rw [← he] at hok
  exact hok.of_map _

/-- A processed round reports no error exactly when it has succeeded. -/
theorem process_clean_iff (p : Processor MemoryFiler) (round : Round) :
    (p.process round).2.log.hasErrors = false ↔
      p.log.hasErrors = false ∧ ∃ fs, (p.generate round.roots).2 = .ok fs := by
  rw [p.log_process round, Log.hasErrors_append, Log.hasErrors_append, Env.hasErrors_generate,
    Bool.or_false, Bool.or_eq_false_iff, Log.hasErrors_closing]
  refine and_congr_right fun _ => ?_
  cases (p.generate round.roots).2 with
  | ok fs => simp [Except.isOk, Except.toBool]
  | error stop => simp [Except.isOk, Except.toBool]

theorem process_of_clean {p : Processor MemoryFiler} (hp : p.env = Env.ofClasspath cp markers)
    {round : Round} (h : (p.process round).2.log.hasErrors = false) :
    p.log.hasErrors = false ∧ cp.Known round.roots ∧ ∃ fs,
      HaveFiles cp markers (Env.containersAt cp markers round.roots) fs ∧
      Gains p.filer.files (p.process round).2.filer.files fs ∧
      warningsOf (p.process round).2.events = warningsOf p.events ++
        warningsAbout cp markers (Env.containersAt cp markers round.roots) := by
  obtain ⟨hclean, fs, hfs⟩ := (process_clean_iff p round).mp h
  have ends := p.env.generate_ends p.filer round.roots
  obtain ⟨hy, -, hg⟩ := ends.of_ok hfs
  obtain ⟨hk, hf⟩ := yields_iff.mp (hp ▸ hy)
  refine ⟨hclean, hk, fs, hf, hg, ?_⟩
  have hout : warningsOf [Processor.outcome (p.env.generate p.filer round.roots).2] = [] := by
    have hx : (p.env.generate p.filer round.roots).2.result = .ok fs := hfs
    rw [Processor.outcome, hx]
    rfl
  change warningsOf (p.events ++ (p.env.generate p.filer round.roots).2.events ++
    [Processor.outcome (p.env.generate p.filer round.roots).2]) = _
  rw [warningsOf_append, warningsOf_append, hout, List.append_nil]
  have hfree : ∀ f ∈ fs, refusal p.filer f.qualifiedName = none := fun _ _ => rfl
  obtain ⟨t, he, -⟩ := Env.generate_of_accepts (Env.render_eq_ok_iff_yields.mpr hy) hg.toAccepts
    hfree
  rw [he, warningsOf_append, hp, warningsOf_render (hp ▸ hy), warningsOf, warningsOf,
    diagnostics_generated]
  simp [Log.warnings]

theorem process_clean_of {p : Processor MemoryFiler} (hp : p.env = Env.ofClasspath cp markers)
    {round : Round} {fs : List OutputFile} (hclean : p.log.hasErrors = false)
    (hk : cp.Known round.roots)
    (hf : HaveFiles cp markers (Env.containersAt cp markers round.roots) fs)
    (hd : Accepts p.filer.files fs) : (p.process round).2.log.hasErrors = false := by
  have hy : p.env.Yields round.roots fs := hp ▸ yields_iff.mpr ⟨hk, hf⟩
  have hfree : ∀ f ∈ fs, refusal p.filer f.qualifiedName = none := fun _ _ => rfl
  obtain ⟨t, he, -⟩ := Env.generate_of_accepts (Env.render_eq_ok_iff_yields.mpr hy) hd hfree
  refine (process_clean_iff p round).mpr ⟨hclean, fs, ?_⟩
  simp only [Processor.generate, he]

/-- What a run without errors has done: the files of all containers in the rounds are there, and
the methods of these containers have been warned about. -/
theorem run_of_clean {p : Processor MemoryFiler} (hp : p.env = Env.ofClasspath cp markers)
    {rounds : List Round} (h : (p.run (rounds.map .process)).log.hasErrors = false) :
    p.log.hasErrors = false ∧ cp.Known (rounds.flatMap Round.roots) ∧ ∃ fs,
      HaveFiles cp markers (containersOf cp markers rounds) fs ∧
      Gains p.filer.files (p.run (rounds.map .process)).filer.files fs ∧
      warningsOf (p.run (rounds.map .process)).events = warningsOf p.events ++
        warningsAbout cp markers (containersOf cp markers rounds) := by
  induction rounds generalizing p with
  | nil =>
    refine ⟨h, fun _ hr => absurd hr List.not_mem_nil, [], .nil, Gains.refl _, ?_⟩
    exact (List.append_nil _).symm
  | cons round rest ih =>
    obtain ⟨hclean, hk, gs, hg, hgains, hw⟩ := ih (p := (p.process round).2) hp h
    obtain ⟨hclean, hk₁, fs, hf, hgains₁, hw₁⟩ := process_of_clean hp hclean
    refine ⟨hclean, ?_, fs ++ gs, haveFiles_append_iff.mpr ⟨fs, gs, rfl, hf, hg⟩,
      hgains₁.trans hgains, ?_⟩
    · intro r hr
      rcases List.mem_append.mp hr with hr | hr
      · exact hk₁ r hr
      · exact hk r hr
    · refine hw.trans ?_
      rw [hw₁, List.append_assoc, warningsAbout, warningsAbout, ← List.flatMap_append]
      rfl

/-- All that a run needs in order to report no error. -/
theorem run_clean_of {p : Processor MemoryFiler} (hp : p.env = Env.ofClasspath cp markers)
    {rounds : List Round} {fs : List OutputFile} (hclean : p.log.hasErrors = false)
    (hk : cp.Known (rounds.flatMap Round.roots))
    (hf : HaveFiles cp markers (containersOf cp markers rounds) fs)
    (hd : Accepts p.filer.files fs) :
    (p.run (rounds.map .process)).log.hasErrors = false := by
  induction rounds generalizing p fs with
  | nil => exact hclean
  | cons round rest ih =>
    obtain ⟨xs, ys, rfl, hx, hy⟩ := haveFiles_append_iff.mp hf
    have hk₁ : cp.Known round.roots := fun r hr => hk r (List.mem_append_left _ hr)
    have hk₂ : cp.Known (rest.flatMap Round.roots) := fun r hr => hk r (List.mem_append_right _ hr)
    have hfirst := process_clean_of hp hclean hk₁ hx (Accepts.append_iff.mp hd).1
    obtain ⟨-, -, zs, hz, hgains, -⟩ := process_of_clean hp hfirst
    -- the files of the first round are determined by its containers
    have hsame : zs = xs := List.right_unique_forall₂' (fun _ _ _ h₁ h₂ =>
      Except.ok.inj (h₁.symm.trans h₂)) hz hx
    subst hsame
    exact ih (p := (p.process round).2) hp hfirst hk₂ hy (hgains.accepts_iff.mpr hd)

end Runs

/-- Some roots in place of others: the roots themselves, in any order, number and spelling, and
perhaps known declarations that are no containers. -/
structure Rearranged (cp : Classpath) (markers : Markers) (roots more : List String) : Prop where
  covered : ∀ r ∈ roots, ∃ s ∈ more, SameRoot r s
  known : ∀ s ∈ more, (∃ r ∈ roots, SameRoot r s) ∨
    ∃ d, cp.find? s = some d ∧ d.isAnnotated markers.module = false

def ContainersApart (cp : Classpath) (markers : Markers) (rounds : List Round) : Prop :=
  rounds.Pairwise fun a b => ∀ r ∈ a.roots, ∀ s ∈ b.roots, ∀ d, cp.find? r = some d →
    d.isAnnotated markers.module = true → ¬ SameRoot r s

/-- Two processors that hold the same entries and have given the same warnings. -/
structure SameOutcome (p q : Processor MemoryFiler) : Prop where
  entries : ∀ name, Dict.get? p.filer.files name = Dict.get? q.filer.files name
  warnings : p.log.warnings.Perm q.log.warnings

section Rearranging

variable {cp : Classpath} {markers : Markers}

theorem Rearranged.known_iff {roots more : List String} (h : Rearranged cp markers roots more) :
    cp.Known roots ↔ cp.Known more := by
  constructor
  · intro hk s hs
    rcases h.known s hs with ⟨r, hr, hrs⟩ | ⟨d, hd, -⟩
    · rw [← Classpath.find?_congr hrs]
      exact hk r hr
    · exact ⟨d, hd⟩
  · intro hk r hr
    obtain ⟨s, hs, hrs⟩ := h.covered r hr
    rw [Classpath.find?_congr hrs]
    exact hk s hs

theorem Rearranged.mem_containersAt_iff {roots more : List String}
    (h : Rearranged cp markers roots more) {c : Container} :
    c ∈ Env.containersAt cp markers roots ↔ c ∈ Env.containersAt cp markers more := by
  rw [Env.mem_containersAt, Env.mem_containersAt]
  constructor
  · rintro ⟨r, hr, d, hd, ha, rfl⟩
    obtain ⟨s, hs, hrs⟩ := h.covered r hr
    exact ⟨s, hs, d, Classpath.find?_congr hrs ▸ hd, ha, rfl⟩
  · rintro ⟨s, hs, d, hd, ha, rfl⟩
    rcases h.known s hs with ⟨r, hr, hrs⟩ | ⟨e, he, hn⟩
    · exact ⟨r, hr, d, (Classpath.find?_congr hrs).trans hd, ha, rfl⟩
    · rw [hd] at he
      cases he
      rw [ha] at hn
      cases hn

theorem mem_containersOf {rounds : List Round} {c : Container} :
    c ∈ containersOf cp markers rounds ↔
      c ∈ Env.containersAt cp markers (rounds.flatMap Round.roots) := by
  simp only [containersOf, List.mem_flatMap, Env.mem_containersAt]
  constructor
  · rintro ⟨round, hround, r, hr, hd⟩
    exact ⟨r, ⟨round, hround, hr⟩, hd⟩
  · rintro ⟨r, ⟨round, hround, hr⟩, hd⟩
    exact ⟨round, hround, r, hr, hd⟩

theorem nodup_containersOf {rounds : List Round} (h : ContainersApart cp markers rounds) :
    (containersOf cp markers rounds).Nodup := by
  refine List.nodup_flatMap.mpr ⟨fun _ _ => Env.nodup_containersAt _, ?_⟩
  refine h.imp ?_
  intro a b hab c hc hc'
  obtain ⟨r, hr, d, hd, ha, rfl⟩ := Env.mem_containersAt.mp hc
  obtain ⟨s, hs, e, he, -, hde⟩ := Env.mem_containersAt.mp hc'
  have hkey : d.key = e.key := congrArg (fun c => c.decl.key) hde
  have hrs : SameRoot r s :=
    (Classpath.key_of_find? hd).symm.trans (hkey.trans (Classpath.key_of_find? he))
  exact hab r hr s hs d hd ha hrs

/-- A run of rounds succeeds, and has the same outcome, whenever some rounds over the same
containers succeed. -/
theorem run_clean_of_perm {filer : MemoryFiler} (rounds others : List Round)
    (hp : (containersOf cp markers rounds).Perm (containersOf cp markers others))
    (hk : cp.Known (others.flatMap Round.roots))
    (h : ((Processor.start (Env.ofClasspath cp markers) filer).run
      (rounds.map .process)).log.hasErrors = false) :
    let start := Processor.start (Env.ofClasspath cp markers) filer
    (start.run (others.map .process)).log.hasErrors = false ∧
      SameOutcome (start.run (rounds.map .process)) (start.run (others.map .process)) ∧
      (Dict.Sorted filer.files →
        (start.run (rounds.map .process)).filer = (start.run (others.map .process)).filer) := by
  intro start
  obtain ⟨hstart, -, fs, hf, hg, hw⟩ := run_of_clean (p := start) rfl h
  obtain ⟨gs, hgs, hperm⟩ := List.perm_comp_forall₂ hp.symm hf
  have hclean : (start.run (others.map .process)).log.hasErrors = false :=
    run_clean_of rfl hstart hk hgs (hg.toAccepts.perm hperm.symm)
  obtain ⟨-, -, gs', hgs', hg', hw'⟩ := run_of_clean (p := start) rfl hclean
  -- the files of the other run are determined by its containers
  have hsame : gs' = gs := List.right_unique_forall₂' (fun _ _ _ h₁ h₂ =>
    Except.ok.inj (h₁.symm.trans h₂)) hgs' hgs
  subst hsame
  have hentries := hg.get?_unique hg' hperm.symm
  refine ⟨hclean, ⟨hentries, ?_⟩, ?_⟩
  · change (warningsOf _).Perm (warningsOf _)
    rw [hw, hw']
    exact (hp.flatMap_right _).append_left _
  · intro hs
    have hfiles := Dict.eq_of_get?_eq (hg.sorted hs) (hg'.sorted hs) hentries
    exact congrArg MemoryFiler.mk hfiles

theorem run_get?_of_clean {filer : MemoryFiler} {rounds : List Round} {r : String} {d : TypeDecl}
    (h : ((Processor.start (Env.ofClasspath cp markers) filer).run
      (rounds.map .process)).log.hasErrors = false)
    (hr : r ∈ rounds.flatMap Round.roots) (hd : cp.find? r = some d)
    (ha : d.isAnnotated markers.module = true) :
    ∃ f, ((Env.ofClasspath cp markers).renderOne (Container.of markers d)).result = .ok f ∧
      Dict.get? ((Processor.start (Env.ofClasspath cp markers) filer).run
        (rounds.map .process)).filer.files f.qualifiedName = some f.contents := by
  obtain ⟨-, -, fs, hf, hg, -⟩ := run_of_clean rfl h
  have hc : Container.of markers d ∈ containersOf cp markers rounds :=
    mem_containersOf.mpr (Env.mem_containersAt.mpr ⟨r, hr, d, hd, ha, rfl⟩)
  obtain ⟨f, hm, hok⟩ := hf.exists_file hc
  exact ⟨f, hok, hg.added f hm⟩

end Rearranging

/-- Rounds may be joined into a single one, and a single round spread over several, as long as no
container is a root of two of them: if the ones succeed, so do the others, with the same entries
and the same warnings. The text of each container is the one that is rendered for it alone. -/
theorem Processor.rounds_rearranged (cp : Classpath) (markers : Markers) (filer : MemoryFiler)
    (rounds : List Round) (single : Round) :
    let start := Processor.start (Env.ofClasspath cp markers) filer
    let split := start.run (rounds.map .process)
    let joined := start.run [.process single]
    (Rearranged cp markers (rounds.flatMap Round.roots) single.roots →
      split.log.hasErrors = false →
        joined.log.hasErrors = false ∧ SameOutcome split joined ∧
          (Dict.Sorted filer.files → split.filer = joined.filer)) ∧
    (Rearranged cp markers single.roots (rounds.flatMap Round.roots) →
      ContainersApart cp markers rounds → joined.log.hasErrors = false →
        split.log.hasErrors = false ∧ SameOutcome joined split ∧
          (Dict.Sorted filer.files → joined.filer = split.filer)) ∧
    (split.log.hasErrors = false →
      ∀ r ∈ rounds.flatMap Round.roots, ∀ d, cp.find? r = some d →
        d.isAnnotated markers.module = true →
        ∃ f, ((Env.ofClasspath cp markers).renderOne (Container.of markers d)).result = .ok f ∧
          Dict.get? split.filer.files f.qualifiedName = some f.contents) := by
  intro start split joined
  have hsingle : containersOf cp markers [single] = Env.containersAt cp markers single.roots :=
    List.append_nil _
  have hroots : [single].flatMap Round.roots = single.roots := List.append_nil _
  refine ⟨fun hr h => ?_, fun hr hapart h => ?_, fun h r hroot d hd ha => ?_⟩
  · obtain ⟨-, hk, fs, hf, hg, -⟩ := run_of_clean (p := start) rfl h
    -- the containers of the rounds are distinct because their files have been added together
    have hp : (containersOf cp markers rounds).Perm (containersOf cp markers [single]) := by
      rw [hsingle]
      refine (List.perm_ext_iff_of_nodup (hf.nodup hg.distinct) (Env.nodup_containersAt _)).mpr ?_
      intro c
      rw [mem_containersOf, hr.mem_containersAt_iff]
    exact run_clean_of_perm rounds [single] hp (hroots ▸ hr.known_iff.mp hk) h
  · have h' : (start.run ([single].map .process)).log.hasErrors = false := h
    obtain ⟨-, hk, -⟩ := run_of_clean (p := start) rfl h'
    have hp : (containersOf cp markers [single]).Perm (containersOf cp markers rounds) := by
      rw [hsingle]
      refine (List.perm_ext_iff_of_nodup (Env.nodup_containersAt _)
        (nodup_containersOf hapart)).mpr ?_
      intro c
      rw [mem_containersOf, hr.mem_containersAt_iff]
    exact run_clean_of_perm [single] rounds hp (hr.known_iff.mp (hroots ▸ hk)) h'
  · exact run_get?_of_clean h hroot hd ha

theorem rounds_rearranged_two :
    let start := Processor.start (.ofClasspath twoContainers .default) MemoryFiler.empty
    let split := start.run ([Round.of ["a.Foo"], .of ["b.Foo"]].map .process)
    let joined := start.run [.process (.of ["b.Foo<X>", "a.Foo", " b.Foo"])]
    Rearranged twoContainers .default ["a.Foo", "b.Foo"] ["b.Foo<X>", "a.Foo", " b.Foo"] ∧
      split.log.hasErrors = false ∧ joined.log.hasErrors = false ∧ SameOutcome split joined := by
  have hr : Rearranged twoContainers .default ["a.Foo", "b.Foo"]
      ["b.Foo<X>", "a.Foo", " b.Foo"] := by
    refine ⟨by simp only [SameRoot]; decide, ?_⟩
    intro s hs
    left
    revert s
    simp only [SameRoot]
    decide
  have hclean : ((Processor.start (.ofClasspath twoContainers .default) MemoryFiler.empty).run
      ([Round.of ["a.Foo"], .of ["b.Foo"]].map .process)).log.hasErrors = false := by
    decide +kernel
  obtain ⟨hjoined, hsame, -⟩ := (Processor.rounds_rearranged twoContainers .default .empty
    [.of ["a.Foo"], .of ["b.Foo"]] (.of ["b.Foo<X>", "a.Foo", " b.Foo"])).1 hr hclean
  exact ⟨hr, hclean, hjoined, hsame⟩

end Provisioning
