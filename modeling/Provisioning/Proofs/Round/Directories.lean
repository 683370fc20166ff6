import Provisioning.Proofs.Files.Tree
import Provisioning.Proofs.Module.Planning
import Provisioning.Proofs.Round.Rendering
import Provisioning.Report

/-! # Files below a directory

What every write keeps is kept by a whole run. So the files that a run accepts have
distinct names, are named after the modules they declare, and are kept in the tree.
Whether they stay below their directory and apart is then a question of slashes.
-/

namespace Provisioning

open Source (ClassName)

section Invariants

def Env.Rendered (env : Env) (f : OutputFile) : Prop :=
  ∃ d : TypeDecl, (env.renderOne (.of env.markers d)).result = .ok f

theorem Env.of_mem_discover {env : Env} {roots : List String} {containers : List Container}
    (h : (env.discover roots).result = .ok containers) :
    ∀ c ∈ containers, ∃ d, c = .of env.markers d := by
  obtain ⟨ds, -, h⟩ := Trial.bind_eq_ok.mp h
  cases h
  intro c hc
  obtain ⟨d, -, rfl⟩ := List.mem_map.mp hc
  exact ⟨d, rfl⟩

theorem Env.rendered_of_render {env : Env} {roots : List String} {fs : List OutputFile}
    (h : (env.render roots).result = .ok fs) : ∀ f ∈ fs, env.Rendered f := by
  obtain ⟨containers, hc, hf⟩ := env.render_eq_ok.mp h
  have hof := Env.of_mem_discover hc
  clear hc h
  induction hf with
  | nil => exact fun _ h => absurd h List.not_mem_nil
  | @cons c f rest more hr _ ih =>
    obtain ⟨⟨d, rfl⟩, hrest⟩ := List.forall_mem_cons.mp hof
    exact List.forall_mem_cons.mpr ⟨⟨d, hr⟩, ih hrest⟩

variable {σ : Type} [Filer σ] {I : σ → Prop}

theorem writeAll_invariant {Q : OutputFile → Prop}
    (hwrite : ∀ s f, Q f → I s → I (Filer.write s f).1) {s : σ} (hs : I s) {fs : List OutputFile}
    (hfs : ∀ f ∈ fs, Q f) : I (writeAll s fs).1 := by
  induction fs generalizing s with
  | nil => exact hs
  | cons f rest ih =>
    obtain ⟨hf, hrest⟩ := List.forall_mem_cons.mp hfs
    have hnext := hwrite s f hf hs
    unfold writeAll
    cases hw : Filer.write s f with
    | mk t result =>
      rw [hw] at hnext
      cases result with
      | ok u => exact ih hnext hrest
      | error e => exact hnext

theorem Env.generate_invariant {env : Env}
    (hwrite : ∀ s f, env.Rendered f → I s → I (Filer.write s f).1) {s : σ} (hs : I s)
    (roots : List String) : I (env.generate s roots).1 := by
  cases hr : ((env.render roots).within .generate).result with
  | error stop => simpa only [generate, hr] using hs
  | ok fs =>
    have hfs := rendered_of_render (Trial.within_eq_ok.mp hr)
    cases hc : firstConflict s [] fs with
    | some name => simpa only [generate, hr, hc] using hs
    | none => simpa only [generate, hr, hc] using writeAll_invariant hwrite hs hfs

theorem runFrom_invariant {env : Env}
    (hwrite : ∀ s f, env.Rendered f → I s → I (Filer.write s f).1) {p : Processor σ}
    (henv : p.env = env) (hp : I p.filer) (index : Nat) (rounds : List Round) :
    (runFrom index rounds p).env = env ∧ I (runFrom index rounds p).filer := by
  induction rounds generalizing p index with
  | nil => exact ⟨henv, hp⟩
  | cons round rest ih =>
    subst henv
    let started := { p with events := p.events ++ [Event.started index round.roots.length] }
    have hnext : I (started.process round).2.filer :=
      Env.generate_invariant hwrite hp round.roots
    exact ih (p := (started.process round).2) rfl hnext (index + 1)

/-- What every write of a rendered file keeps is kept by a run. -/
theorem Universe.run_invariant {I : Recorded σ → Prop} (u : Universe) (markers : Markers)
    (filer : σ)
    (hwrite : ∀ s f, (Env.mk (.ofClasspath u.classpath) markers).Rendered f → I s →
      I (Filer.write s f).1) (hstart : I ⟨filer, []⟩) : I (u.run markers filer).filer := by
  obtain ⟨henv, hrun⟩ := runFrom_invariant (p := .start ⟨.ofClasspath u.classpath, markers⟩
    (⟨filer, []⟩ : Recorded σ)) hwrite rfl hstart 0 u.roundList
  exact Env.generate_invariant (henv ▸ hwrite) hrun Round.last.roots

end Invariants

section Names

structure OutputFile.Declares (f : OutputFile) (package name : String) : Prop where
  qualifiedName : f.qualifiedName = (ClassName.topLevelOf package name).canonical
  path : f.path = Path.ofSource package name

theorem OutputFile.declares_ofSource (f : Source.File) :
    (OutputFile.ofSource f).Declares f.package f.content.name := ⟨rfl, rfl⟩

theorem Container.package_moduleClass (c : Container) :
    c.moduleClass.package = c.className.package := rfl

theorem Container.package_of (markers : Markers) (d : TypeDecl) :
    ∃ segments, (Container.of markers d).className.package = Text.join "." segments ∧
      ∀ s ∈ segments, ClassName.IsSegment s := by
  by_cases h : (ClassName.guess d.key).package = ""
  · exact ⟨[], h, fun _ hs => absurd hs List.not_mem_nil⟩
  · obtain ⟨segments, -, hjoin, hall⟩ := (ClassName.regular_guess h).isPackage
    exact ⟨segments, hjoin, fun s hs => (hall s hs).1⟩

/-- The file declares a class whose package is made of segments. -/
def OutputFile.IsModule (f : OutputFile) : Prop := ∃ segments name,
  (∀ s ∈ segments, ClassName.IsSegment s) ∧ f.Declares (Text.join "." segments) name

theorem Env.Rendered.isModule {env : Env} {f : OutputFile} (h : env.Rendered f) : f.IsModule := by
  obtain ⟨d, h⟩ := h
  obtain ⟨plan, hplan, h⟩ := Trial.bind_eq_ok.mp h
  cases h
  obtain ⟨-, hp⟩ := plan_eq_ok (Trial.within_eq_ok.mp hplan)
  obtain ⟨segments, hpackage, hall⟩ := Container.package_of env.markers d
  have hclass : plan.moduleClass.package = Text.join "." segments := by
    have hmodule := congrArg ModulePlan.moduleClass hp
    rw [hmodule, Container.package_moduleClass, hpackage]
  have hsource := OutputFile.declares_ofSource (plan.sourceFile env.markers)
  have hmodule : (plan.sourceFile env.markers).package = plan.moduleClass.package := rfl
  rw [hmodule, hclass] at hsource
  exact ⟨segments, (plan.sourceFile env.markers).content.name, hall, hsource⟩

def OutputFile.SlashFree (f : OutputFile) : Prop := '/' ∉ f.qualifiedName.toList

instance (f : OutputFile) : Decidable f.SlashFree := inferInstanceAs (Decidable (¬ _))

theorem OutputFile.Declares.slashFree {f : OutputFile} {package name : String}
    (h : f.Declares package name) (hf : f.SlashFree) :
    '/' ∉ package.toList ∧ '/' ∉ name.toList := by
  have hname : (ClassName.topLevelOf package name).dotted = name := rfl
  rw [OutputFile.SlashFree, h.qualifiedName, ClassName.canonical, hname] at hf
  split at hf
  · rename_i hempty
    have hpackage : package = "" := String.isEmpty_iff.mp hempty
    subst hpackage
    exact ⟨List.not_mem_nil, hf⟩
  · simp only [String.toList_append, List.mem_append, not_or] at hf
    exact ⟨hf.1.1, hf.2⟩

namespace OutputFile.IsModule

variable {f g : OutputFile}

theorem plain_steps (h : f.IsModule) (hf : f.SlashFree) :
    Path.steps f.path = Path.components f.path ∧
      (∀ s ∈ Path.steps f.path, s ≠ "." ∧ s ≠ "..") ∧ Path.StaysBelow f.path := by
  obtain ⟨segments, name, -, hd⟩ := h
  obtain ⟨hp, hn⟩ := hd.slashFree hf
  rw [hd.path, Path.steps_ofSource hp hn, Path.components_ofSource hp hn]
  exact ⟨rfl, fun s hs => (Path.plain_names hs).2, Path.staysBelow_of_slashFree hp hn⟩

theorem eq_of_components (hf : f.IsModule) (hg : g.IsModule) (hfs : f.SlashFree)
    (hgs : g.SlashFree) (h : Path.components f.path = Path.components g.path) :
    f.qualifiedName = g.qualifiedName ∧ f.path = g.path := by
  obtain ⟨as, a, has, hfd⟩ := hf
  obtain ⟨bs, b, hbs, hgd⟩ := hg
  obtain ⟨hfp, hfn⟩ := hfd.slashFree hfs
  obtain ⟨hgp, hgn⟩ := hgd.slashFree hgs
  rw [hfd.path, hgd.path, Path.components_ofSource hfp hfn, Path.components_ofSource hgp hgn] at h
  obtain ⟨hpackage, hname⟩ := Path.names_inj rfl has rfl hbs h
  rw [hfd.qualifiedName, hgd.qualifiedName, hfd.path, hgd.path, hpackage, hname]
  exact ⟨rfl, rfl⟩

theorem components_eq_of_locate {t : FileTree} {root : String} {place : List String}
    (hf : f.IsModule) (hg : g.IsModule) (hfs : f.SlashFree) (hgs : g.SlashFree)
    (hfl : t.locate (Path.join root f.path) = .ok place)
    (hgl : t.locate (Path.join root g.path) = .ok place) :
    Path.components f.path = Path.components g.path := by
  obtain ⟨hfsteps, hfplain, hfbelow⟩ := hf.plain_steps hfs
  obtain ⟨hgsteps, hgplain, hgbelow⟩ := hg.plain_steps hgs
  have hsteps := FileTree.steps_eq_of_locate hfbelow.1 hgbelow.1 hfplain hgplain hfl hgl
  rw [← hfsteps, ← hgsteps, hsteps]

end OutputFile.IsModule

theorem Kept.readFile_iff_of_slashFree {root : String} {fs : List OutputFile} {t : FileTree}
    (h : Kept root fs t) (hm : ∀ f ∈ fs, f.IsModule) (hs : ∀ f ∈ fs, f.SlashFree) :
    (∀ f ∈ fs, t.readFile (Path.join root f.path) = .ok f.contents) ↔
      ∀ f ∈ fs, ∀ g ∈ fs, f.path = g.path → f.contents = g.contents := by
  rw [h.readFile_iff]
  constructor
  · intro hplace f hf g hg hpath
    exact hplace f hf g hg (by rw [hpath])
  · intro hpath f hf g hg hplace
    obtain ⟨-, place, hfl, -⟩ := h f hf
    have hsame := (hm f hf).components_eq_of_locate (hm g hg) (hs f hf) (hs g hg) hfl
      (hplace.symm.trans hfl)
    exact hpath f hf g hg ((hm f hf).eq_of_components (hm g hg) (hs f hf) (hs g hg) hsame).2

end Names

section Directory

/-- What a filer below a root has done with the modules that it accepted, when the files `old` had
been written below the root before. -/
structure Filed (root : String) (old : List OutputFile) (s : Recorded DirectoryFiler) : Prop where
  root_eq : s.inner.root = root
  distinct : (s.accepted.map OutputFile.qualifiedName).Nodup
  created : ∀ f ∈ s.accepted, f.qualifiedName ∈ s.inner.created
  modules : ∀ f ∈ s.accepted, f.IsModule
  kept : Kept root (old ++ s.accepted) s.inner.tree

variable {root : String} {old : List OutputFile} {s : Recorded DirectoryFiler}

theorem Filed.write (h : Filed root old s) {f : OutputFile} (hf : f.IsModule) :
    Filed root old (s.write f).1 := by
  have hwrite : Filer.write s.inner f = s.inner.write f := rfl
  cases hc : s.inner.created.contains f.qualifiedName with
  | true =>
    simp only [Recorded.write, hwrite, DirectoryFiler.write_of_created hc]
    exact h
  | false =>
    have hcreated : ∀ g ∈ s.accepted, g.qualifiedName ∈ s.inner.created ++ [f.qualifiedName] :=
      fun g hg => List.mem_append_left _ (h.created g hg)
    cases hs : DirectoryFiler.store s.inner.root s.inner.tree f with
    | mk tree result =>
      cases result with
      | error e =>
        simp only [Recorded.write, hwrite, DirectoryFiler.write_of_new hc, hs]
        exact ⟨h.root_eq, h.distinct, hcreated, h.modules,
          h.kept.of_extends (DirectoryFiler.extends_of_error hs)⟩
      | ok u =>
        simp only [Recorded.write, hwrite, DirectoryFiler.write_of_new hc, hs]
        obtain ⟨place, hstored⟩ := DirectoryFiler.store_of_ok hs
        have hnew : f.qualifiedName ∉ s.accepted.map OutputFile.qualifiedName := by
          intro hm
          obtain ⟨g, hg, hname⟩ := List.mem_map.mp hm
          have hg' := h.created g hg
          rw [hname] at hg'
          simp [hg'] at hc
        refine ⟨h.root_eq, ?_, ?_, ?_, ?_⟩
        · rw [List.map_append, List.nodup_append]
          refine ⟨h.distinct, List.nodup_singleton _, ?_⟩
          intro a ha b hb hab
          rw [List.map_singleton, List.mem_singleton] at hb
          exact hnew (hb ▸ hab ▸ ha)
        · rw [List.forall_mem_append]
          refine ⟨hcreated, ?_⟩
          simp
        · rw [List.forall_mem_append]
          refine ⟨h.modules, ?_⟩
          simpa using hf
        · rw [← List.append_assoc]
          exact h.kept.stored (h.root_eq ▸ hstored)

theorem Universe.filed_run (u : Universe) (markers : Markers) {tree : FileTree}
    (h : Kept root old tree) :
    Filed root old (u.run markers (DirectoryFiler.ofRoot root tree)).filer := by
  refine u.run_invariant markers _ (fun s f hf hs => hs.write hf.isModule) ?_
  refine ⟨rfl, List.nodup_nil, fun _ hf => absurd hf List.not_mem_nil,
    fun _ hf => absurd hf List.not_mem_nil, ?_⟩
  rw [List.append_nil]
  exact h

/-- The files of a run below a directory have distinct names. Each of them stays below exactly when
no slash begins its name or a segment of its package and its name holds no step upwards. All of them
can be read back exactly when those that go to one place have one text. Without slashes in the names,
all files stay below the root, apart and as they were accepted. -/
theorem Universe.directory_files_apart (u : Universe) (markers : Markers) (root : String)
    (tree : FileTree) :
    let run := u.runIn markers (.directory root) tree
    let files := run.1.files
    (files.map OutputFile.qualifiedName).Nodup ∧
    (∀ f ∈ files, ∃ package name, f.Declares package name ∧ (Path.StaysBelow f.path ↔
      (∀ s ∈ Path.directories package, Path.isAbsolute s = false) ∧
        Path.isAbsolute name = false ∧ ".." ∉ Path.segments (name ++ ".java"))) ∧
    ((∀ f ∈ files, run.2.readFile (Path.join root f.path) = .ok f.contents) ↔
      ∀ f ∈ files, ∀ g ∈ files,
        run.2.locate (Path.join root f.path) = run.2.locate (Path.join root g.path) →
          f.contents = g.contents) ∧
    ((∀ f ∈ files, f.SlashFree) →
      (∀ f ∈ files, Path.StaysBelow f.path) ∧
      (files.map fun f => Path.components f.path).Nodup ∧
      ∀ f ∈ files, run.2.readFile (Path.join root f.path) = .ok f.contents) := by
  intro run files
  have hfiled := u.filed_run markers (Kept.nil root tree)
  have hread := hfiled.kept.readFile_iff
  rw [List.nil_append] at hread
  refine ⟨hfiled.distinct, ?_, hread, ?_⟩
  · intro f hf
    obtain ⟨segments, name, -, hd⟩ := hfiled.modules f hf
    refine ⟨Text.join "." segments, name, hd, ?_⟩
    rw [hd.path]
    exact Path.staysBelow_ofSource_iff _ _
  · intro hslash
    have hname : ∀ f ∈ files, ∀ g ∈ files, f.qualifiedName = g.qualifiedName → f = g :=
      fun f hf g hg => List.inj_on_of_nodup_map hfiled.distinct hf hg
    have hsame : ∀ f ∈ files, ∀ g ∈ files,
        Path.components f.path = Path.components g.path → f = g := fun f hf g hg hc =>
      hname f hf g hg ((hfiled.modules f hf).eq_of_components (hfiled.modules g hg) (hslash f hf)
        (hslash g hg) hc).1
    refine ⟨?_, ?_, ?_⟩
    · intro f hf
      exact ((hfiled.modules f hf).plain_steps (hslash f hf)).2.2
    · exact (List.Nodup.of_map _ hfiled.distinct).map_on fun f hf g hg => hsame f hf g hg
    · refine (hfiled.kept.readFile_iff_of_slashFree hfiled.modules hslash).mpr ?_
      intro f hf g hg hpath
      rw [hsame f hf g hg (congrArg Path.components hpath)]

def nestedPackages : Universe :=
  ⟨[bareContainer "a.Foo", bareContainer "a.b.Foo", bareContainer "a.Bar"],
    some [["a.Foo"], ["a.b.Foo", "a.Bar"]]⟩

theorem nestedPackages_apart :
    let run := nestedPackages.runIn .default (.directory "out") .fresh
    run.1.files.map OutputFile.path =
      ["a/FooModule.java", "a/b/FooModule.java", "a/BarModule.java"] ∧
    (∀ f ∈ run.1.files, f.SlashFree) ∧ (∀ f ∈ run.1.files, Path.StaysBelow f.path) ∧
    ∀ f ∈ run.1.files, run.2.readFile (Path.join "out" f.path) = .ok f.contents := by
  intro run
  have hslash : ∀ f ∈ run.1.files, f.SlashFree := by decide +kernel
  have hrun := (nestedPackages.directory_files_apart .default "out" .fresh).2.2.2 hslash
  exact ⟨by decide +kernel, hslash, hrun.1, hrun.2.2⟩

def namedContainer (name given : String) : TypeDecl :=
  (TypeDecl.ofKind .interface name).annotated
    ((AnnotationUse.of Markers.default.module).withValue Markers.default.moduleNameProperty
      (.string given))

def escapingModule : Universe := ⟨[namedContainer "a.Foo" "../../Escaped"], none⟩

def collidingModules : Universe :=
  ⟨[namedContainer "a.Foo" "b/X", (namedContainer "a.b.Foo" "X").withMember
    ((Callable.method "v" "int").annotated (.of Markers.default.runtime))], none⟩

/-- Neither run reports anything, but a file is written outside the root, and one is overwritten by
the file of another module. -/
theorem modules_escape_and_collide :
    let escape := escapingModule.runIn .default (.directory "out") .fresh
    let collision := collidingModules.runIn .default (.directory "out") .fresh
    (escape.1.hasErrors = false ∧ ¬ (∀ f ∈ escape.1.files, Path.StaysBelow f.path) ∧
      ∃ f ∈ escape.1.files, escape.2.readFile "Escaped.java" = .ok f.contents) ∧
    (collision.1.hasErrors = false ∧ ¬ (collision.1.files.map OutputFile.path).Nodup ∧
      ¬ ∀ f ∈ collision.1.files,
        collision.2.readFile (Path.join "out" f.path) = .ok f.contents) := by
  decide +kernel

end Directory

end Provisioning
