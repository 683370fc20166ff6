import Provisioning.Proofs.Classpath.Index
import Provisioning.Proofs.Round.Prediction

/-! # A universe without rounds

All types of such a universe are the roots of one round. Each root is known, since
its own declaration was added under its name, and a name is discovered where it
first stands but with the declaration that was added last. So the round fails on
no root, and if it succeeds it leaves one file for each marked name.
-/

namespace Provisioning

def Failure.OfUnknownRoot (f : Failure) : Prop :=
  ∃ name, f.cause = .unknownType name ∧ .discover ∈ f.trace

namespace Env

section Unknown

variable {cp : Classpath} {markers : Markers}

theorem render_of_unknown {roots : List String} (h : ¬ cp.Known roots) :
    ∃ name, ((ofClasspath cp markers).render roots).result =
      .error (.failed ((Failure.of (.unknownType name)).within .discover)) := by
  rcases Trial.forAll_ends (ofClasspath cp markers).root roots with
    ⟨ds, hds⟩ | ⟨before, name, after, stop, rfl, hbefore, hstop⟩
  · have hfound := (Trial.forAll_eq_ok.mp hds).imp fun _ _ => (root_eq_ok cp markers).mp
    exact absurd (Classpath.forall₂_find?_iff.mp hfound).1 h
  · have hall : Trial.forAll (ofClasspath cp markers).root (before ++ name :: after) = _ :=
      Trial.forAll_of_stop hbefore hstop
    have hunknown : stop = .failed ((Failure.of (.unknownType name)).within .discover) := by
      rw [root_ofClasspath] at hstop
      cases hd : cp.find? name with
      | some d =>
        rw [hd] at hstop
        cases hstop
      | none =>
        rw [hd] at hstop
        cases hstop
        rfl
    refine ⟨name, Trial.bind_eq_error.mpr (.inl (Trial.bind_eq_error.mpr (.inl ?_)))⟩
    rw [hall, hunknown]

theorem not_ofUnknownRoot_planning {env : Env} {c : Container} {m : Callable} {f : Failure}
    (h : env.Rejection c m f) :
    ¬ ((planningFailure c m f).within .generate).OfUnknownRoot := by
  have htrace : f.trace = [] := by cases h <;> rfl
  rintro ⟨name, -, hmem⟩
  simp [planningFailure, Failure.within, htrace] at hmem

/-- A round on a classpath fails on an unknown root exactly when one of its roots is unknown. -/
theorem generate_fails_on_root_iff {σ : Type} [Filer σ] {s : σ} {roots : List String} :
    (∃ f, ((ofClasspath cp markers).generate s roots).2.result = .error (.failed f) ∧
      f.OfUnknownRoot) ↔ ¬ cp.Known roots := by
  constructor
  · rintro ⟨f, hf, hroot⟩ hk
    have hcrash : ∀ message, ((ofClasspath cp markers).generate s roots).2.result ≠
        .error (.crashed message) := by
      intro message hm
      cases hf.symm.trans hm
    rcases generate_of_known hk hcrash with ⟨-, -, ⟨fs, hok⟩ | ⟨name, e, hwrite⟩⟩ | ⟨first, -, hfirst⟩
    · cases hf.symm.trans hok
    · cases hf.symm.trans hwrite
      obtain ⟨_, hcause, -⟩ := hroot
      cases hcause
    · cases hf.symm.trans hfirst
      exact not_ofUnknownRoot_planning first.rejects.rejection hroot
  · intro hk
    obtain ⟨name, hname⟩ := @render_of_unknown cp markers roots hk
    have hwithin := congrArg Trial.result (Trial.within_of_failed .generate hname)
    refine ⟨_, generate_of_stop hwithin, name, rfl, ?_⟩
    exact List.mem_append_left _ List.mem_cons_self

end Unknown

section Order

variable (env : Env)

/-- A declaration at the end is discovered if its name was not seen before. -/
theorem marked_concat (seen : List String) (ds : List TypeDecl) (d : TypeDecl) :
    env.marked seen (ds ++ [d]) = env.marked seen ds ++
      if d.isAnnotated env.markers.module = true ∧ d.key ∉ seen ∧
        d.key ∉ (env.marked seen ds).map TypeDecl.key then [d] else [] := by
  induction ds generalizing seen with
  | nil => by_cases ha : d.isAnnotated env.markers.module <;> by_cases hs : d.key ∈ seen <;>
      simp [marked, ha, hs]
  | cons e rest ih =>
    rw [List.cons_append, marked, marked]
    split
    · rw [ih, List.cons_append]
      have hfresh (ks : List String) :
          (d.key ∉ e.key :: seen ∧ d.key ∉ ks) ↔ (d.key ∉ seen ∧ d.key ∉ e.key :: ks) := by
        simp only [List.mem_cons, not_or]
        tauto
      simp only [List.map_cons, hfresh]
    · exact ih seen

theorem marked_concat_of_mem {ds : List TypeDecl} {d : TypeDecl} (h : d ∈ ds) :
    env.marked [] (ds ++ [d]) = env.marked [] ds := by
  rw [marked_concat, if_neg, List.append_nil]
  rintro ⟨ha, -, hfresh⟩
  obtain ⟨e, he, hek⟩ := env.exists_mem_marked h ha List.not_mem_nil
  exact hfresh (hek ▸ List.mem_map_of_mem he)

theorem marked_concat_of_fresh {ds : List TypeDecl} {d : TypeDecl} (h : ∀ e ∈ ds, e.key ≠ d.key) :
    env.marked [] (ds ++ [d]) =
      env.marked [] ds ++ [d].filter (·.isAnnotated env.markers.module) := by
  have hfresh : d.key ∉ (env.marked [] ds).map TypeDecl.key := by
    intro hd
    obtain ⟨e, he, hek⟩ := List.mem_map.mp hd
    exact h e (env.mem_of_mem_marked he).1 hek
  rw [marked_concat]
  by_cases ha : d.isAnnotated env.markers.module = true
  · rw [if_pos ⟨ha, List.not_mem_nil, hfresh⟩]
    simp [ha]
  · rw [if_neg fun h => ha h.1]
    simp [ha]

theorem marked_filterMap {find : String → Option TypeDecl}
    (hkey : ∀ name d, find name = some d → d.key = name) (names : List String) :
    env.marked [] (names.filterMap find) =
      (names.eraseDups.filterMap find).filter (·.isAnnotated env.markers.module) := by
  induction names using List.reverseRecOn with
  | nil => rfl
  | append_singleton names name ih =>
    rw [Classpath.eraseDups_concat, List.filterMap_append]
    cases hfind : find name with
    | none =>
      have hnone : [name].filterMap find = [] := by simp [hfind]
      rw [hnone, List.append_nil, ih]
      split
      · rfl
      · rw [List.filterMap_append, hnone, List.append_nil]
    | some d =>
      have hsome : [name].filterMap find = [d] := by simp [hfind]
      obtain rfl := hkey name d hfind
      rw [hsome]
      by_cases hm : d.key ∈ names
      · rw [if_pos hm, env.marked_concat_of_mem (List.mem_filterMap.mpr ⟨_, hm, hfind⟩), ih]
      · have hfresh : ∀ e ∈ names.filterMap find, e.key ≠ d.key := by
          intro e he hek
          obtain ⟨other, hother, hfound⟩ := List.mem_filterMap.mp he
          rw [← hek, hkey other e hfound] at hm
          exact hm hother
        rw [if_neg hm, env.marked_concat_of_fresh hfresh, List.filterMap_append, hsome,
          List.filter_append, ih]

end Order

end Env

theorem Processor.failed_of_mem_process {σ : Type} [Filer σ] {p : Processor σ} {round : Round}
    {f : Failure} (h : .failed f ∈ (p.process round).2.events) :
    .failed f ∈ p.events ∨ ∃ stop, (p.generate round.roots).2 = .error stop ∧ f = stop.failure := by
  rcases List.mem_append.mp h with h | h
  · rcases List.mem_append.mp h with h | h
    · exact .inl h
    · have hd : f.diagnostic ∈ diagnostics (p.env.generate p.filer round.roots).2.events :=
        List.mem_filterMap.mpr ⟨_, h, rfl⟩
      have hclean := Env.hasErrors_generate p.env p.filer round.roots
      rw [Log.hasErrors, List.any_eq_false] at hclean
      exact absurd (decide_eq_true f.severity_diagnostic) (hclean _ hd)
  · right
    have hout : Event.failed f = outcome (p.env.generate p.filer round.roots).2 :=
      List.mem_singleton.mp h
    unfold outcome at hout
    split at hout
    · cases hout
    · next stop hstop =>
      cases hout
      exact ⟨stop, hstop, rfl⟩

namespace Universe

/-- The last declaration of every name that stands in the list, in the order in which the names first
stand there. -/
def lastDecls (u : Universe) : List TypeDecl :=
  (u.types.map TypeDecl.key).eraseDups.filterMap (Classpath.lastAdded? u.types)

theorem known_keys (u : Universe) : u.classpath.Known (u.types.map TypeDecl.key) := by
  intro name hname
  obtain ⟨d, hd, rfl⟩ := List.mem_map.mp hname
  refine Option.ne_none_iff_exists'.mp fun hnone => ?_
  rw [classpath, Classpath.find?_ofList, Classpath.lastAdded?_eq_none_iff] at hnone
  exact hnone d hd d.name.isErased_erasure.symm

theorem containersAt_keys (u : Universe) (markers : Markers) :
    Env.containersAt u.classpath markers (u.types.map TypeDecl.key) =
      (u.lastDecls.filter (·.isAnnotated markers.module)).map (Container.of markers) := by
  have hfind : (u.types.map TypeDecl.key).filterMap u.classpath.find? =
      (u.types.map TypeDecl.key).filterMap (Classpath.lastAdded? u.types) := by
    refine List.filterMap_congr fun name hname => ?_
    obtain ⟨d, -, rfl⟩ := List.mem_map.mp hname
    have herased : (TypeText.mk d.key).erasure = d.key := d.name.isErased_erasure
    rw [classpath, Classpath.find?_ofList, herased]
  rw [Env.containersAt, hfind, Env.marked_filterMap _ fun _ _ h => (Classpath.mem_of_lastAdded? h).2]
  rfl

theorem keys_lastDecls (u : Universe) :
    u.lastDecls.map TypeDecl.key = (u.types.map TypeDecl.key).eraseDups := by
  have hall : ∀ name ∈ (u.types.map TypeDecl.key).eraseDups,
      (Classpath.lastAdded? u.types name).map TypeDecl.key = some name := by
    intro name hname
    cases hlast : Classpath.lastAdded? u.types name with
    | none =>
      obtain ⟨d, hd, hkey⟩ := List.mem_map.mp (List.mem_eraseDups.mp hname)
      exact absurd hkey (Classpath.lastAdded?_eq_none_iff.mp hlast d hd)
    | some d => exact congrArg some (Classpath.mem_of_lastAdded? hlast).2
  rw [lastDecls, List.map_filterMap, List.filterMap_congr hall, List.filterMap_some]

section

variable {u : Universe} (h : u.rounds = none)

include h

theorem roundList_of_none : u.roundList = [.of (u.types.map TypeDecl.key)] := by
  rw [roundList, h]

theorem answers_of_none (markers : Markers) :
    u.answers markers MemoryFiler.empty =
      [((Env.ofClasspath u.classpath markers).generate (⟨.empty, []⟩ : Recorded MemoryFiler)
        (u.types.map TypeDecl.key)).2.result] := by
  rw [answers, roundList_of_none h]
  rfl

theorem not_ofUnknownRoot_of_none {markers : Markers} {f : Failure}
    (hf : .failed f ∈ (u.run markers MemoryFiler.empty).events) : ¬ f.OfUnknownRoot := by
  rw [run_eq, beforeLast, roundList_of_none h] at hf
  rcases List.mem_append.mp hf with hf | hf
  · rcases Processor.failed_of_mem_process hf with hf | ⟨stop, hstop, rfl⟩
    · simp [started, Processor.start] at hf
    · cases stop with
      | crashed message =>
        rintro ⟨name, hcause, -⟩
        cases hcause
      | failed f =>
        intro hroot
        exact Env.generate_fails_on_root_iff.mp ⟨f, hstop, hroot⟩ u.known_keys
  · simp at hf

end

/-- Without rounds a run in memory never fails on a root. If it reports no error, its files are those
of the marked ones among the last declarations, one each and in the order in which the names of the
list first stand there. -/
theorem single_round_complete (u : Universe) (markers : Markers) (h : u.rounds = none) :
    let p := u.run markers MemoryFiler.empty
    u.lastDecls.map TypeDecl.key = (u.types.map TypeDecl.key).eraseDups ∧
      (∀ f, .failed f ∈ p.events → ¬ f.OfUnknownRoot) ∧
      (p.report.hasErrors = false → HaveFiles u.classpath markers
        ((u.lastDecls.filter (·.isAnnotated markers.module)).map (Container.of markers))
        p.report.files) := by
  intro p
  refine ⟨u.keys_lastDecls, fun f hf => not_ofUnknownRoot_of_none h hf, fun hclean => ?_⟩
  have hreflects := u.reflects_memory markers
  rw [answers_of_none h] at hreflects
  cases hanswer : ((Env.ofClasspath u.classpath markers).generate
      (⟨.empty, []⟩ : Recorded MemoryFiler) (u.types.map TypeDecl.key)).2.result with
  | error stop =>
    have hone : p.report.errorCount = 1 := by
      rw [hreflects.errors, hanswer]
      rfl
    simp [Report.hasErrors, hone] at hclean
  | ok fs =>
    have hfiles : p.report.files = fs := by
      rw [hreflects.files, hanswer]
      exact List.append_nil fs
    have hyields := ((Env.ofClasspath u.classpath markers).generate_ends
      (⟨.empty, []⟩ : Recorded MemoryFiler) (u.types.map TypeDecl.key)).of_ok hanswer
    rw [hfiles, ← containersAt_keys]
    exact (yields_iff.mp hyields.1).2

def respelled : Universe :=
  let unmarked := TypeDecl.ofKind .interface
  ⟨[unmarked "a.Foo", bareContainer "b.Bar", bareContainer "c.Baz", bareContainer " a.Foo<T>",
    unmarked "b.Bar<X>"], none⟩

theorem respelled_complete :
    let p := respelled.run .default MemoryFiler.empty
    respelled.rounds = none ∧ p.report.hasErrors = false ∧
      HaveFiles respelled.classpath .default
        [.of .default (bareContainer " a.Foo<T>"), .of .default (bareContainer "c.Baz")]
        p.report.files ∧
      p.report.files.map OutputFile.qualifiedName = ["a.FooModule", "c.BazModule"] := by
  have hrounds : respelled.rounds = none := rfl
  have hclean : (respelled.run .default MemoryFiler.empty).report.hasErrors = false := by
    decide +kernel
  have hlast : respelled.lastDecls.filter (·.isAnnotated Markers.default.module) =
      [bareContainer " a.Foo<T>", bareContainer "c.Baz"] := by
    rfl
  have hfiles := (respelled.single_round_complete .default hrounds).2.2 hclean
  rw [hlast] at hfiles
  exact ⟨hrounds, hclean, hfiles, by decide +kernel⟩

end Universe

end Provisioning
