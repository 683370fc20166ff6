import Mathlib.Data.List.Pairwise
import Provisioning.Proofs.Filing
import Provisioning.Proofs.Files.Tree

/-! # What a filer takes for created

A round asks its filer for the names that have been created. In memory a name is
remembered when its file is taken in. Below a directory it is remembered before the
system is asked for anything, so a write that the system refuses leaves its name
behind, and no later write of that name comes through.
-/

namespace Provisioning

structure Attempt where
  file : OutputFile
  result : Except WriteError Unit
  deriving DecidableEq

def WrittenIn (log : List Attempt) (name : String) : Prop :=
  ∃ a ∈ log, a.file.qualifiedName = name ∧ a.result = .ok ()

def RefusedIn (log : List Attempt) (name : String) : Prop :=
  ∃ a ∈ log, a.file.qualifiedName = name ∧ ∃ e, a.result = .error (.system e)

section Attempts

variable {σ : Type} [Filer σ]

def attempts (s : σ) : List OutputFile → σ × List Attempt
  | [] => (s, [])
  | f :: rest =>
    let (t, result) := Filer.write s f
    let (u, later) := attempts t rest
    (u, ⟨f, result⟩ :: later)

theorem attempts_cons (s : σ) (f : OutputFile) (rest : List OutputFile) :
    attempts s (f :: rest) = ((attempts (Filer.write s f).1 rest).1,
      ⟨f, (Filer.write s f).2⟩ :: (attempts (Filer.write s f).1 rest).2) := rfl

/-- The answers of the filer after these attempts are those that the attempts call for. -/
def TellsWritten (run : σ × List Attempt) (name : String) : Prop :=
  Filer.isCreated run.1 name = true ↔ WrittenIn run.2 name

/-- A write that comes out in one of these ways makes the filer remember its name, nothing else does,
and a name that is remembered is not written so again. -/
structure Remembers (σ : Type) [Filer σ] (counts : Except WriteError Unit → Prop) : Prop where
  isCreated_write (s : σ) (f : OutputFile) (name : String) :
    Filer.isCreated (Filer.write s f).1 name = true ↔
      Filer.isCreated s name = true ∨ f.qualifiedName = name ∧ counts (Filer.write s f).2
  not_again (s : σ) (f : OutputFile) :
    Filer.isCreated s f.qualifiedName = true → ¬ counts (Filer.write s f).2

namespace Remembers

variable {counts : Except WriteError Unit → Prop} (h : Remembers σ counts)

include h

theorem unchanged_iff (s : σ) (f : OutputFile) :
    (∀ name, Filer.isCreated (Filer.write s f).1 name = Filer.isCreated s name) ↔
      ¬ counts (Filer.write s f).2 := by
  constructor
  · intro hsame hcounts
    have hnow := (h.isCreated_write s f f.qualifiedName).mpr (.inr ⟨rfl, hcounts⟩)
    exact h.not_again s f ((hsame _).symm.trans hnow) hcounts
  · intro hcounts name
    rw [Bool.eq_iff_iff, h.isCreated_write]
    simp [hcounts]

theorem isCreated_attempts (s : σ) (fs : List OutputFile) (name : String) :
    Filer.isCreated (attempts s fs).1 name = true ↔ Filer.isCreated s name = true ∨
      ∃ a ∈ (attempts s fs).2, a.file.qualifiedName = name ∧ counts a.result := by
  induction fs generalizing s with
  | nil => simp [attempts]
  | cons f rest ih =>
    rw [attempts_cons, ih, h.isCreated_write, List.exists_mem_cons_iff, or_assoc]

theorem not_again_attempts {s : σ} {name : String} (hs : Filer.isCreated s name = true)
    (fs : List OutputFile) :
    ∀ a ∈ (attempts s fs).2, a.file.qualifiedName = name → ¬ counts a.result := by
  induction fs generalizing s with
  | nil => exact fun _ ha => absurd ha List.not_mem_nil
  | cons f rest ih =>
    rw [attempts_cons, List.forall_mem_cons]
    refine ⟨?_, ih ((h.isCreated_write s f name).mpr (.inl hs))⟩
    rintro rfl
    exact h.not_again s f hs

theorem pairwise_attempts (s : σ) (fs : List OutputFile) :
    (attempts s fs).2.Pairwise fun a b =>
      a.file.qualifiedName = b.file.qualifiedName → ¬ (counts a.result ∧ counts b.result) := by
  induction fs generalizing s with
  | nil => exact .nil
  | cons f rest ih =>
    rw [attempts_cons]
    refine .cons ?_ (ih _)
    rintro b hb hname ⟨hf, hcounts⟩
    have hnow := (h.isCreated_write s f f.qualifiedName).mpr (.inr ⟨rfl, hf⟩)
    exact h.not_again_attempts hnow rest b hb hname.symm hcounts

theorem attempt_unique {s : σ} {fs : List OutputFile} {a b : Attempt}
    (ha : a ∈ (attempts s fs).2) (hb : b ∈ (attempts s fs).2)
    (hname : a.file.qualifiedName = b.file.qualifiedName) (hcounts : counts a.result)
    (hcounts' : counts b.result) : a = b := by
  have hsymm : Std.Symm fun a b : Attempt => a.file.qualifiedName = b.file.qualifiedName →
      ¬ (counts a.result ∧ counts b.result) :=
    ⟨fun _ _ hab hname hcounts => hab hname.symm hcounts.symm⟩
  by_contra hne
  exact (h.pairwise_attempts s fs).forall ha hb hne hname ⟨hcounts, hcounts'⟩

end Remembers

end Attempts

theorem KeepingFiler.remembers (σ : Type) [KeepingFiler σ] : Remembers σ (· = .ok ()) := by
  refine ⟨fun s f name => ?_, fun s f hs => ?_⟩
  · cases hr : KeepingFiler.refusal s f.qualifiedName with
    | some message => simp [write_of_refused s f message hr]
    | none =>
      cases hd : Dict.get? (KeepingFiler.files s) f.qualifiedName with
      | some text => simp [write_of_held s f text hr hd]
      | none =>
        obtain ⟨t, ht, -, hfiles⟩ := write_of_fresh s f hr hd
        rw [ht, isCreated_eq, isCreated_eq, hfiles]
        by_cases hname : name = f.qualifiedName
        · simp [Dict.contains, Dict.get?_put, hname]
        · simp [Dict.contains, Dict.get?_put, hname, Ne.symm hname]
  · rw [isCreated_eq, Dict.contains_eq_true_iff] at hs
    obtain ⟨text, htext⟩ := hs
    cases hr : KeepingFiler.refusal s f.qualifiedName with
    | some message => simp [write_of_refused s f message hr]
    | none => simp [write_of_held s f text hr htext]

theorem MemoryFiler.tellsWritten (fs : List OutputFile) (name : String) :
    TellsWritten (attempts MemoryFiler.empty fs) name :=
  ((KeepingFiler.remembers MemoryFiler).isCreated_attempts .empty fs name).trans
    (or_iff_right Bool.false_ne_true)

namespace DirectoryFiler

theorem remembers :
    Remembers DirectoryFiler fun result => result = .ok () ∨ ∃ e, result = .error (.system e) := by
  refine ⟨fun s f name => ?_, fun s f hs => ?_⟩
  · change (s.write f).1.created.contains name = true ↔ s.created.contains name = true ∨
      f.qualifiedName = name ∧ ((s.write f).2 = .ok () ∨ ∃ e, (s.write f).2 = .error (.system e))
    cases hc : s.created.contains f.qualifiedName with
    | true => simp [write_of_created hc]
    | false =>
      rw [write_of_new hc]
      have hcounts := (store_eq s.root s.tree f).symm
      simp [hcounts, @eq_comm _ name]
  · change ¬ ((s.write f).2 = .ok () ∨ ∃ e, (s.write f).2 = .error (.system e))
    rw [write_of_created hs]
    simp

theorem isCreated_attempts_iff (root : String) (tree : FileTree) (fs : List OutputFile)
    (name : String) : Filer.isCreated (attempts (ofRoot root tree) fs).1 name = true ↔
      WrittenIn (attempts (ofRoot root tree) fs).2 name ∨
        RefusedIn (attempts (ofRoot root tree) fs).2 name := by
  have h := remembers.isCreated_attempts (.ofRoot root tree) fs name
  simp only [and_or_left, exists_or] at h
  exact h.trans (or_iff_right Bool.false_ne_true)

/-- An attempt that succeeded and one that was refused would be two for one name. -/
theorem not_writtenIn_of_refusedIn {s : DirectoryFiler} {fs : List OutputFile} {name : String}
    (h : RefusedIn (attempts s fs).2 name) : ¬ WrittenIn (attempts s fs).2 name := by
  obtain ⟨b, hb, hbname, reason, hreason⟩ := h
  rintro ⟨a, ha, haname, hok⟩
  obtain rfl := remembers.attempt_unique ha hb (haname.trans hbname.symm) (.inl hok)
    (.inr ⟨reason, hreason⟩)
  cases hok.symm.trans hreason

/-- A name that is taken for created is not written, whatever becomes of the tree. -/
theorem no_retry {s : DirectoryFiler} {name : String} (hs : s.created.contains name = true)
    (tree : FileTree) {f : OutputFile} (hf : f.qualifiedName = name) :
    (DirectoryFiler.write { s with tree } f).2 = .error (.alreadyCreated name) := by
  subst hf
  rw [write_of_created (s := { s with tree }) hs]

end DirectoryFiler

/-- The filer in memory takes a name for created exactly when an attempt to write it has succeeded,
and a write that fails changes no answer of it. The filer below a directory does so for the names that
the system has not refused; a refused name is taken for created, and is never written again, whatever
becomes of the tree. A failing write changes one of its answers exactly when it is such a refusal. -/
theorem created_unless_refused (root : String) (tree : FileTree) (fs : List OutputFile)
    (name : String) :
    let memory := attempts MemoryFiler.empty fs
    let directory := attempts (DirectoryFiler.ofRoot root tree) fs
    TellsWritten memory name ∧
      (∀ f e, (Filer.write memory.1 f).2 = .error e →
        ∀ other, Filer.isCreated (Filer.write memory.1 f).1 other = Filer.isCreated memory.1 other) ∧
      (TellsWritten directory name ↔ ¬ RefusedIn directory.2 name) ∧
      (RefusedIn directory.2 name → ∀ (now : FileTree) (f : OutputFile), f.qualifiedName = name →
        (Filer.write { directory.1 with tree := now } f).2 = .error (.alreadyCreated name)) ∧
      (∀ f e, (Filer.write directory.1 f).2 = .error e →
        ((∀ other, Filer.isCreated (Filer.write directory.1 f).1 other =
          Filer.isCreated directory.1 other) ↔ ∀ reason, e ≠ .system reason)) := by
  intro memory directory
  have hcreated := DirectoryFiler.isCreated_attempts_iff root tree fs name
  refine ⟨MemoryFiler.tellsWritten fs name, fun f e he => ?_, ?_, fun hr now f hf => ?_,
    fun f e he => ?_⟩
  · rw [(KeepingFiler.remembers MemoryFiler).unchanged_iff, he]
    simp
  · constructor
    · intro htells hr
      exact DirectoryFiler.not_writtenIn_of_refusedIn hr (htells.mp (hcreated.mpr (.inr hr)))
    · intro hr
      exact hcreated.trans (or_iff_left hr)
  · exact DirectoryFiler.no_retry (hcreated.mpr (.inr hr)) now hf
  · rw [DirectoryFiler.remembers.unchanged_iff, he]
    simp

def blockedPackage : List OutputFile :=
  [⟨"a", "a", ""⟩, ⟨"a.Foo", "a/Foo.java", "x"⟩, ⟨"b.Foo", "b/Foo.java", "x"⟩]

theorem blockedPackage_log :
    (attempts (DirectoryFiler.ofRoot "out" .fresh) blockedPackage).2 =
      [⟨⟨"a", "a", ""⟩, .ok ()⟩, ⟨⟨"a.Foo", "a/Foo.java", "x"⟩, .error (.system .exists)⟩,
        ⟨⟨"b.Foo", "b/Foo.java", "x"⟩, .ok ()⟩] := by
  decide +kernel

theorem refusedIn_blockedPackage (name : String) :
    RefusedIn (attempts (DirectoryFiler.ofRoot "out" .fresh) blockedPackage).2 name ↔
      name = "a.Foo" := by
  rw [RefusedIn, blockedPackage_log]
  simp [eq_comm]

theorem blockedPackage_told :
    let memory := (attempts MemoryFiler.empty blockedPackage).1
    let directory := attempts (DirectoryFiler.ofRoot "out" .fresh) blockedPackage
    let again : OutputFile := ⟨"b.Foo", "b/Foo.java", ""⟩
    TellsWritten directory "b.Foo" ∧ ¬ TellsWritten directory "a.Foo" ∧
      (Filer.write { directory.1 with tree := .fresh } ⟨"a.Foo", "c/Foo.java", "x"⟩).2 =
        .error (.alreadyCreated "a.Foo") ∧
      (Filer.write memory again).2 = .error (.alreadyCreated "b.Foo") ∧
      (∀ other, Filer.isCreated (Filer.write memory again).1 other =
        Filer.isCreated memory other) ∧
      (Filer.write directory.1 again).2 = .error (.alreadyCreated "b.Foo") ∧
      ∀ other, Filer.isCreated (Filer.write directory.1 again).1 other =
        Filer.isCreated directory.1 other := by
  intro memory directory again
  have hrefused : RefusedIn directory.2 "a.Foo" := (refusedIn_blockedPackage _).mpr rfl
  have hfree : ¬ RefusedIn directory.2 "b.Foo" := fun h =>
    absurd ((refusedIn_blockedPackage _).mp h) (by decide)
  have hmemory : (Filer.write memory again).2 = .error (.alreadyCreated "b.Foo") := by
    decide +kernel
  have hdirectory : (Filer.write directory.1 again).2 = .error (.alreadyCreated "b.Foo") := by
    decide +kernel
  obtain ⟨-, hkept, htells, -, hsame⟩ :=
    created_unless_refused "out" .fresh blockedPackage "b.Foo"
  obtain ⟨-, -, hlost, hretry, -⟩ := created_unless_refused "out" .fresh blockedPackage "a.Foo"
  refine ⟨htells.mpr hfree, fun h => hlost.mp h hrefused, hretry hrefused .fresh _ rfl, hmemory,
    hkept again _ hmemory, hdirectory, (hsame again _ hdirectory).mpr ?_⟩
  intro reason h
  cases h

/-- The class behind the file is never written, and its write fails, but from then on it is taken for
created. -/
theorem refused_class_taken_for_created :
    let s := (attempts (DirectoryFiler.ofRoot "out" .fresh) [⟨"a", "a", ""⟩]).1
    let f : OutputFile := ⟨"a.Foo", "a/Foo.java", "x"⟩
    let run := attempts (DirectoryFiler.ofRoot "out" .fresh) blockedPackage
    ¬ WrittenIn run.2 "a.Foo" ∧ ¬ TellsWritten run "a.Foo" ∧
      (Filer.write s f).2 = .error (.system .exists) ∧
      Filer.isCreated s "a.Foo" = false ∧ Filer.isCreated (Filer.write s f).1 "a.Foo" = true := by
  intro s f run
  have hwritten : ¬ WrittenIn run.2 "a.Foo" := by
    change ¬ WrittenIn (attempts _ _).2 _
    rw [WrittenIn, blockedPackage_log]
    simp
  have hcreated : Filer.isCreated run.1 "a.Foo" = true := by decide +kernel
  exact ⟨hwritten, fun h => hwritten (h.mp hcreated), by decide +kernel⟩

end Provisioning
