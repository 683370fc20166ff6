import Provisioning.Command.Registry
import Provisioning.Proofs.Round.Directories

/-! # Several inputs of one command

The inputs of a command are processed one after the other in one tree, each with a
filer of its own. The files they report lie below one directory, and what is left of
them depends on whether two of them go to one place with different texts.
-/

namespace Provisioning.Command

variable {markers : Markers} {output : Output} {root : String}

def outcomes (markers : Markers) (output : Output) :
    FileTree → List String → List (Except Complaint Report) × FileTree
  | tree, [] => ([], tree)
  | tree, path :: rest =>
    match readInput tree path with
    | .error complaint =>
      let (others, last) := outcomes markers output tree rest
      (.error complaint :: others, last)
    | .ok u =>
      let (report, next) := u.runIn markers output tree
      let (others, last) := outcomes markers output next rest
      (.ok report :: others, last)

def succeeds : Except Complaint Report → Bool
  | .ok report => !report.hasErrors
  | .error _ => false

def linesOf (output : Output) : Except Complaint Report → List String
  | .ok report => report.diagnostics.map Diagnostic.display ++ report.files.map (fileLine output)
  | .error _ => []

def reportedOf : Except Complaint Report → List OutputFile
  | .ok report => report.files
  | .error _ => []

theorem Session.printAll_eq (s : Session) (lines : List String) :
    s.printAll lines =
      { s with stdout := s.stdout ++ String.join (lines.map fun line => line ++ "\n") } := by
  induction lines generalizing s with
  | nil =>
    rw [List.map_nil, String.join_nil, String.append_empty]
    rfl
  | cons line rest ih =>
    have hprint : s.printAll (line :: rest) = (s.print line).printAll rest := rfl
    rw [hprint, ih, List.map_cons, String.join_cons]
    simp only [Session.print, String.append_assoc]

theorem processInput_eq (s : Session) (path : String) :
    processInput markers output s path = match readInput s.tree path with
      | .error complaint => (false, s.complain complaint)
      | .ok u => (!(u.runIn markers output s.tree).1.hasErrors,
          { s with
            tree := (u.runIn markers output s.tree).2
            stdout := s.stdout ++ String.join
              ((linesOf output (.ok (u.runIn markers output s.tree).1)).map fun line =>
                line ++ "\n") }) := by
  unfold processInput
  cases readInput s.tree path with
  | error complaint => rfl
  | ok u =>
    simp only [Session.printAll_eq, linesOf, List.map_append, String.join_append,
      String.append_assoc]

/-- A command succeeds if all its inputs do, it prints what they report, and it leaves the tree behind
the last of them. -/
theorem processInputs_eq (markers : Markers) (output : Output) (s : Session) (paths : List String) :
    (processInputs markers output s paths).1 =
        (outcomes markers output s.tree paths).1.all succeeds ∧
      (processInputs markers output s paths).2.tree = (outcomes markers output s.tree paths).2 ∧
      (processInputs markers output s paths).2.stdout = s.stdout ++ String.join
        (((outcomes markers output s.tree paths).1.flatMap (linesOf output)).map
          fun line => line ++ "\n") := by
  induction paths generalizing s with
  | nil =>
    refine ⟨rfl, rfl, ?_⟩
    rw [outcomes, List.flatMap_nil, List.map_nil, String.join_nil, String.append_empty]
    rfl
  | cons path rest ih =>
    unfold processInputs outcomes
    rw [processInput_eq]
    cases readInput s.tree path with
    | error complaint =>
      obtain ⟨hsuccess, htree, hstdout⟩ := ih (s.complain complaint)
      refine ⟨?_, htree, hstdout⟩
      simp [succeeds]
    | ok u =>
      obtain ⟨hsuccess, htree, hstdout⟩ := ih { s with
        tree := (u.runIn markers output s.tree).2
        stdout := s.stdout ++ String.join
          ((linesOf output (.ok (u.runIn markers output s.tree).1)).map fun line =>
            line ++ "\n") }
      refine ⟨?_, htree, ?_⟩
      · rw [List.all_cons, ← hsuccess]
        rfl
      · simp only [List.flatMap_cons, List.map_append, String.join_append]
        rw [hstdout, String.append_assoc]

/-- The reported files are modules, and they are kept behind the files of earlier runs. -/
theorem kept_outcomes (markers : Markers) {tree : FileTree} {old : List OutputFile}
    (h : Kept root old tree) (paths : List String) :
    (∀ f ∈ (outcomes markers (.directory root) tree paths).1.flatMap reportedOf, f.IsModule) ∧
      Kept root (old ++ (outcomes markers (.directory root) tree paths).1.flatMap reportedOf)
        (outcomes markers (.directory root) tree paths).2 := by
  induction paths generalizing tree old with
  | nil =>
    refine ⟨fun _ hf => absurd hf List.not_mem_nil, ?_⟩
    rw [outcomes, List.flatMap_nil, List.append_nil]
    exact h
  | cons path rest ih =>
    unfold outcomes
    cases hread : readInput tree path with
    | error complaint => exact ih h
    | ok u =>
      have hfiled := u.filed_run markers h
      obtain ⟨hmodules, hkept⟩ := ih hfiled.kept
      refine ⟨?_, ?_⟩
      · simp only [List.flatMap_cons, List.forall_mem_append]
        exact ⟨hfiled.modules, hmodules⟩
      · simp only [List.flatMap_cons]
        rw [← List.append_assoc]
        exact hkept

theorem succeeds_iff {o : Except Complaint Report} :
    succeeds o = true ↔ ∃ report, o = .ok report ∧ report.hasErrors = false := by
  cases o with
  | error complaint => simp [succeeds]
  | ok report => simp [succeeds]

theorem mem_linesOf (output : Output) {o : Except Complaint Report} {f : OutputFile} (h : f ∈ reportedOf o) :
    fileLine output f ∈ linesOf output o := by
  cases o with
  | error complaint => cases h
  | ok report => exact List.mem_append_right _ (List.mem_map_of_mem h)

theorem run_generate {config : Config} {found : Matches} (hm : config.markers? = some markers)
    (hd : outputDirectory config found = .ok root) (s : Session) :
    generate.run config found s =
      processInputs markers (.directory root) s (found.all "input") := by
  simp only [generate, hm, hd]

/-- The command succeeds exactly when every input is read and processed without an error, and it
prints a line for each reported file. When it ends, all of these can be read back exactly when those
that go to one place have one text. Without slashes in the names, that is when those of one path
have one text. -/
theorem reported_files_read_back {config : Config} {found : Matches} {markers : Markers}
    {root : String} (hm : config.markers? = some markers)
    (hd : outputDirectory config found = .ok root) (s : Session) :
    let result := generate.run config found s
    let inputs := (outcomes markers (.directory root) s.tree (found.all "input")).1
    let lines := inputs.flatMap (linesOf (.directory root))
    let files := inputs.flatMap reportedOf
    let tree := result.2.tree
    (result.1 = true ↔ ∀ o ∈ inputs, ∃ report, o = .ok report ∧ report.hasErrors = false) ∧
    result.2.stdout = s.stdout ++ String.join (lines.map fun line => line ++ "\n") ∧
    (∀ f ∈ files, "wrote " ++ Path.join root f.path ∈ lines) ∧
    ((∀ f ∈ files, tree.readFile (Path.join root f.path) = .ok f.contents) ↔
      ∀ f ∈ files, ∀ g ∈ files,
        tree.locate (Path.join root f.path) = tree.locate (Path.join root g.path) →
          f.contents = g.contents) ∧
    ((∀ f ∈ files, f.SlashFree) →
      ((∀ f ∈ files, tree.readFile (Path.join root f.path) = .ok f.contents) ↔
        ∀ f ∈ files, ∀ g ∈ files, f.path = g.path → f.contents = g.contents)) := by
  intro result inputs lines files tree
  have hresult : result = processInputs markers (.directory root) s (found.all "input") :=
    run_generate hm hd s
  obtain ⟨hsuccess, htree, hstdout⟩ :=
    processInputs_eq markers (.directory root) s (found.all "input")
  rw [← hresult] at hsuccess htree hstdout
  obtain ⟨hmodules, hkept⟩ := kept_outcomes markers (Kept.nil root s.tree) (found.all "input")
  rw [List.nil_append, ← htree] at hkept
  refine ⟨?_, hstdout, ?_, hkept.readFile_iff, fun hslash => ?_⟩
  · rw [hsuccess, List.all_eq_true]
    exact forall₂_congr fun o _ => succeeds_iff
  · intro f hf
    obtain ⟨o, ho, hfo⟩ := List.mem_flatMap.mp hf
    exact List.mem_flatMap.mpr ⟨o, ho, mem_linesOf (.directory root) hfo⟩
  · exact hkept.readFile_iff_of_slashFree hmodules hslash

def containerText (name fields : String) : String :=
  "\x7b\"types\":[\x7b\"name\":\"" ++ name ++
    "\",\"annotations\":[\x7b\"type\":\"stiletto.Stiletto.Module\"\x7d]" ++ fields ++ "\x7d]\x7d"

def runtimeText : String :=
  ",\"members\":[\x7b\"kind\":\"method\",\"name\":\"v\",\"return_type\":\"int\"," ++
    "\"annotations\":[\x7b\"type\":\"stiletto.ProvidedBy.Runtime\"\x7d]\x7d]"

def twoInputs (first second : String) : Session :=
  let one := FileTree.fresh.put ["tmp", "", "work", "one.json"] (.file (.text first))
  .start (one.put ["tmp", "", "work", "two.json"] (.file (.text second)))

def bothFound : Matches := [("input", "one.json"), ("input", "two.json"), ("output", "out")]

theorem packages_read_back :
    let s := twoInputs (containerText "a.Foo" "") (containerText "b.Foo" "")
    let inputs := (outcomes .default (.directory "out") s.tree (bothFound.all "input")).1
    Config.empty.markers? = some .default ∧ outputDirectory .empty bothFound = .ok "out" ∧
    (inputs.flatMap reportedOf).map OutputFile.path = ["a/FooModule.java", "b/FooModule.java"] ∧
    (∀ f ∈ inputs.flatMap reportedOf, f.SlashFree) ∧
    ∀ f ∈ inputs.flatMap reportedOf,
      (generate.run .empty bothFound s).2.tree.readFile (Path.join "out" f.path) =
        .ok f.contents := by
  intro s inputs
  have hfiles : (inputs.flatMap reportedOf).map (fun f => (f.qualifiedName, f.path)) =
      [("a.FooModule", "a/FooModule.java"), ("b.FooModule", "b/FooModule.java")] := by
    decide +kernel
  have hpaths : (inputs.flatMap reportedOf).map OutputFile.path =
      ["a/FooModule.java", "b/FooModule.java"] := by
    have hsecond := congrArg (List.map Prod.snd) hfiles
    rw [List.map_map] at hsecond
    exact hsecond
  have hslash : ∀ f ∈ inputs.flatMap reportedOf, f.SlashFree := by
    intro f hf
    have hname := List.mem_map_of_mem (f := fun f => (f.qualifiedName, f.path)) hf
    have hall : ∀ x ∈ [("a.FooModule", "a/FooModule.java"), ("b.FooModule", "b/FooModule.java")],
        '/' ∉ x.1.toList := by decide
    exact hall _ (hfiles ▸ hname)
  have hm : Config.empty.markers? = some .default := rfl
  have hd : outputDirectory .empty bothFound = .ok "out" := rfl
  have hread := (reported_files_read_back hm hd s).2.2.2.2 hslash
  refine ⟨hm, hd, hpaths, hslash, hread.mpr ?_⟩
  intro f hf g hg hsame
  have hnodup : ((inputs.flatMap reportedOf).map OutputFile.path).Nodup := by
    rw [hpaths]
    decide
  rw [List.inj_on_of_nodup_map hnodup hf hg hsame]

/-- Two inputs for one container succeed, although the module of the first one is lost: the second
one, which asks for a runtime value, is given the same file. -/
theorem first_input_lost :
    let s := twoInputs (containerText "a.Foo" "") (containerText "a.Foo" runtimeText)
    let inputs := (outcomes .default (.directory "out") s.tree (bothFound.all "input")).1
    let result := generate.run .empty bothFound s
    result.1 = true ∧
    result.2.stdout = "wrote out/a/FooModule.java\nwrote out/a/FooModule.java\n" ∧
    ¬ ∀ f ∈ inputs.flatMap reportedOf,
      result.2.tree.readFile (Path.join "out" f.path) = .ok f.contents := by
  intro s inputs result
  obtain ⟨hsuccess, htree, hstdout⟩ :=
    processInputs_eq .default (.directory "out") s (bothFound.all "input")
  have hresult : result = processInputs .default (.directory "out") s (bothFound.all "input") :=
    run_generate rfl rfl s
  rw [hresult, hsuccess, htree, hstdout]
  decide +kernel

end Provisioning.Command
