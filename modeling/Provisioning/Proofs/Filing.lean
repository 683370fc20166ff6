import Mathlib.Data.List.Nodup
import Mathlib.Data.List.Perm.Basic
import Provisioning.Round.Writing

/-! # Filers that keep what they take in

A keeping filer holds its texts in a dictionary and may refuse some names. Files
under distinct new names are written one after the other, up to the first name
that the filer refuses, and each of them adds exactly its own entry.
-/

namespace Provisioning

/-- A filer whose contents are a dictionary. A name that it does not refuse is
accepted once. -/
class KeepingFiler (σ : Type) extends Filer σ where
  files : σ → Dict String
  refusal : σ → String → Option String
  isCreated_eq (s : σ) (name : String) : isCreated s name = Dict.contains (files s) name
  write_of_refused (s : σ) (f : OutputFile) (message : String) :
    refusal s f.qualifiedName = some message → write s f = (s, .error (.refused message))
  write_of_held (s : σ) (f : OutputFile) (text : String) :
    refusal s f.qualifiedName = none → Dict.get? (files s) f.qualifiedName = some text →
      write s f = (s, .error (.alreadyCreated f.qualifiedName))
  write_of_fresh (s : σ) (f : OutputFile) :
    refusal s f.qualifiedName = none → Dict.get? (files s) f.qualifiedName = none →
      ∃ t, write s f = (t, .ok ()) ∧ refusal t = refusal s ∧
        files t = Dict.put (files s) f.qualifiedName f.contents

open KeepingFiler (files refusal)

theorem MemoryFiler.write_of_held (s : MemoryFiler) (f : OutputFile) (text : String)
    (h : Dict.get? s.files f.qualifiedName = some text) :
    s.write f = (s, .error (.alreadyCreated f.qualifiedName)) := by
  rw [MemoryFiler.write, if_pos ((Dict.contains_eq_true_iff _ _).mpr ⟨text, h⟩)]

theorem MemoryFiler.write_of_fresh (s : MemoryFiler) (f : OutputFile)
    (h : Dict.get? s.files f.qualifiedName = none) :
    s.write f = (⟨Dict.put s.files f.qualifiedName f.contents⟩, .ok ()) := by
  rw [MemoryFiler.write, if_neg]
  simp [(Dict.contains_eq_false_iff _ _).mpr h]

instance : KeepingFiler MemoryFiler where
  files := MemoryFiler.files
  refusal _ _ := none
  isCreated_eq _ _ := rfl
  write_of_refused _ _ _ h := by cases h
  write_of_held s f text _ h := s.write_of_held f text h
  write_of_fresh s f _ h := ⟨_, s.write_of_fresh f h, rfl, rfl⟩

instance : KeepingFiler RefusingFiler where
  files s := s.inner.files
  refusal s := s.refusal
  isCreated_eq _ _ := rfl
  write_of_refused s f message h := by
    change s.write f = _
    rw [RefusingFiler.write, h]
  write_of_held s f text hr h := by
    change s.write f = _
    rw [RefusingFiler.write, hr, s.inner.write_of_held f text h]
  write_of_fresh s f hr h := by
    refine ⟨⟨⟨Dict.put s.inner.files f.qualifiedName f.contents⟩, s.refusal⟩, ?_, rfl, rfl⟩
    change s.write f = _
    rw [RefusingFiler.write, hr, s.inner.write_of_fresh f h]

/-- The files stand under distinct names that the dictionary does not hold. -/
structure Accepts (d : Dict String) (fs : List OutputFile) : Prop where
  distinct : (fs.map OutputFile.qualifiedName).Nodup
  fresh : ∀ f ∈ fs, Dict.get? d f.qualifiedName = none

/-- What is held after some files were added: the old entries as they were, and exactly one new
entry for each file, under distinct names that were not held before. -/
structure Gains (before after : Dict String) (fs : List OutputFile) : Prop
    extends Accepts before fs where
  added : ∀ f ∈ fs, Dict.get? after f.qualifiedName = some f.contents
  kept : ∀ name, name ∉ fs.map OutputFile.qualifiedName →
    Dict.get? after name = Dict.get? before name
  names : (Dict.keys after).Perm (fs.map OutputFile.qualifiedName ++ Dict.keys before)
  sorted : Dict.Sorted before → Dict.Sorted after

namespace Accepts

variable {d : Dict String} {fs gs : List OutputFile}

theorem nil (d : Dict String) : Accepts d [] := ⟨List.nodup_nil, fun _ h => absurd h List.not_mem_nil⟩

theorem perm (h : Accepts d fs) (hp : fs.Perm gs) : Accepts d gs :=
  ⟨(hp.map _).nodup_iff.mp h.distinct, fun f hf => h.fresh f (hp.mem_iff.mpr hf)⟩

theorem append_iff : Accepts d (fs ++ gs) ↔ Accepts d fs ∧ Accepts d gs ∧
    ∀ f ∈ fs, ∀ g ∈ gs, f.qualifiedName ≠ g.qualifiedName := by
  constructor
  · rintro ⟨hn, hf⟩
    rw [List.map_append, List.nodup_append] at hn
    obtain ⟨h₁, h₂, hd⟩ := hn
    refine ⟨⟨h₁, fun f h => hf f (List.mem_append_left _ h)⟩,
      ⟨h₂, fun g h => hf g (List.mem_append_right _ h)⟩, ?_⟩
    intro f hf g hg
    exact hd _ (List.mem_map_of_mem hf) _ (List.mem_map_of_mem hg)
  · rintro ⟨⟨h₁, hf₁⟩, ⟨h₂, hf₂⟩, hd⟩
    refine ⟨?_, ?_⟩
    · rw [List.map_append, List.nodup_append]
      refine ⟨h₁, h₂, ?_⟩
      intro a ha b hb
      obtain ⟨f, hf, rfl⟩ := List.mem_map.mp ha
      obtain ⟨g, hg, rfl⟩ := List.mem_map.mp hb
      exact hd f hf g hg
    · intro f hf
      rcases List.mem_append.mp hf with h | h
      · exact hf₁ f h
      · exact hf₂ f h

end Accepts

namespace Gains

variable {a b c d : Dict String} {fs gs : List OutputFile}

theorem refl (d : Dict String) : Gains d d [] :=
  ⟨Accepts.nil d, fun _ h => absurd h List.not_mem_nil, fun _ _ => rfl, List.Perm.refl _,
    fun h => h⟩

theorem put {f : OutputFile} (h : Dict.get? d f.qualifiedName = none) :
    Gains d (Dict.put d f.qualifiedName f.contents) [f] := by
  refine ⟨⟨List.nodup_singleton _, ?_⟩, ?_, ?_, ?_, Dict.sorted_put d _ _⟩
  · simpa using h
  · simp [Dict.get?_put]
  · intro name hn
    have hne : name ≠ f.qualifiedName := by simpa using hn
    rw [Dict.get?_put, if_neg hne]
  · exact Dict.keys_put_of_fresh d _ _ h

theorem get?_of_some (h : Gains a b fs) {name text : String} (hb : Dict.get? a name = some text) :
    Dict.get? b name = some text := by
  rw [h.kept, hb]
  intro hm
  obtain ⟨f, hf, rfl⟩ := List.mem_map.mp hm
  rw [h.fresh f hf] at hb
  cases hb

/-- What can be added after some files is what could be added before them, under other names. -/
theorem accepts_iff (h : Gains a b fs) : Accepts b gs ↔ Accepts a (fs ++ gs) := by
  rw [Accepts.append_iff]
  constructor
  · rintro ⟨hn, hf⟩
    have differ : ∀ f ∈ fs, ∀ g ∈ gs, f.qualifiedName ≠ g.qualifiedName := by
      intro f hm g hg he
      have held := h.added f hm
      rw [he, hf g hg] at held
      cases held
    refine ⟨h.toAccepts, ⟨hn, ?_⟩, differ⟩
    intro g hg
    rw [← hf g hg, h.kept]
    intro hm
    obtain ⟨f, hm, he⟩ := List.mem_map.mp hm
    exact differ f hm g hg he
  · rintro ⟨-, ⟨hn, hf⟩, differ⟩
    refine ⟨hn, ?_⟩
    intro g hg
    rw [h.kept, hf g hg]
    intro hm
    obtain ⟨f, hm, he⟩ := List.mem_map.mp hm
    exact differ f hm g hg he

theorem trans (h₁ : Gains a b fs) (h₂ : Gains b c gs) : Gains a c (fs ++ gs) := by
  refine ⟨h₁.accepts_iff.mp h₂.toAccepts, ?_, ?_, ?_, fun h => h₂.sorted (h₁.sorted h)⟩
  · intro f hf
    rcases List.mem_append.mp hf with hf | hf
    · exact h₂.get?_of_some (h₁.added f hf)
    · exact h₂.added f hf
  · intro name hn
    rw [List.map_append, List.mem_append, not_or] at hn
    rw [h₂.kept name hn.2, h₁.kept name hn.1]
  · refine h₂.names.trans ?_
    rw [List.map_append, List.append_assoc]
    exact (h₁.names.append_left _).trans (List.perm_append_comm_assoc _ _ _)

theorem get?_unique (h₁ : Gains a b fs) (h₂ : Gains a c gs) (hp : fs.Perm gs) (name : String) :
    Dict.get? b name = Dict.get? c name := by
  by_cases hm : name ∈ fs.map OutputFile.qualifiedName
  · obtain ⟨f, hf, rfl⟩ := List.mem_map.mp hm
    rw [h₁.added f hf, h₂.added f (hp.mem_iff.mp hf)]
  · have hm' : name ∉ gs.map OutputFile.qualifiedName := fun h => hm ((hp.map _).mem_iff.mpr h)
    rw [h₁.kept name hm, h₂.kept name hm']

end Gains

section Writing

variable {σ : Type}

theorem firstConflict_eq_none [Filer σ] (s : σ) (seen : List String) (fs : List OutputFile) :
    firstConflict s seen fs = none ↔ (fs.map OutputFile.qualifiedName).Nodup ∧
      ∀ f ∈ fs, Filer.isCreated s f.qualifiedName = false ∧ f.qualifiedName ∉ seen := by
  induction fs generalizing seen with
  | nil => simp [firstConflict]
  | cons f rest ih =>
    by_cases hf : (Filer.isCreated s f.qualifiedName || seen.contains f.qualifiedName) = true
    · simp only [firstConflict, hf, ↓reduceIte, reduceCtorEq, false_iff]
      rintro ⟨-, h⟩
      obtain ⟨hc, hs⟩ := h f List.mem_cons_self
      simp [hc, hs] at hf
    · simp only [firstConflict, hf, Bool.false_eq_true, ↓reduceIte, ih]
      simp only [Bool.or_eq_true, List.contains_iff_mem, not_or, Bool.not_eq_true] at hf
      constructor
      · rintro ⟨hn, h⟩
        refine ⟨List.nodup_cons.mpr ⟨?_, hn⟩, ?_⟩
        · intro hm
          obtain ⟨g, hg, he⟩ := List.mem_map.mp hm
          exact (h g hg).2 (he ▸ List.mem_cons_self)
        · intro g hg
          rcases List.mem_cons.mp hg with rfl | hg
          · exact hf
          · exact ⟨(h g hg).1, fun hs => (h g hg).2 (List.mem_cons_of_mem _ hs)⟩
      · rintro ⟨hn, h⟩
        obtain ⟨hm, hn⟩ := List.nodup_cons.mp hn
        refine ⟨hn, ?_⟩
        intro g hg
        obtain ⟨hc, hs⟩ := h g (List.mem_cons_of_mem _ hg)
        refine ⟨hc, ?_⟩
        intro hseen
        rcases List.mem_cons.mp hseen with he | hseen
        · exact hm (he ▸ List.mem_map_of_mem hg)
        · exact hs hseen

variable [KeepingFiler σ]

theorem firstConflict_eq_none_iff_accepts (s : σ) (fs : List OutputFile) :
    firstConflict s [] fs = none ↔ Accepts (files s) fs := by
  rw [firstConflict_eq_none]
  constructor
  · rintro ⟨hn, h⟩
    refine ⟨hn, ?_⟩
    intro f hf
    rw [← Dict.contains_eq_false_iff, ← KeepingFiler.isCreated_eq]
    exact (h f hf).1
  · rintro ⟨hn, h⟩
    refine ⟨hn, ?_⟩
    intro f hf
    rw [KeepingFiler.isCreated_eq, Dict.contains_eq_false_iff]
    exact ⟨h f hf, List.not_mem_nil⟩

/-- Whatever one write is asked to do, no entry is lost or changed. -/
theorem write_get?_of_some (s : σ) (f : OutputFile) {name text : String}
    (h : Dict.get? (files s) name = some text) :
    Dict.get? (files (Filer.write s f).1) name = some text := by
  cases hr : refusal s f.qualifiedName with
  | some message =>
    rw [KeepingFiler.write_of_refused s f message hr]
    exact h
  | none =>
    cases hg : Dict.get? (files s) f.qualifiedName with
    | some held =>
      rw [KeepingFiler.write_of_held s f held hr hg]
      exact h
    | none =>
      obtain ⟨t, ht, -, hf⟩ := KeepingFiler.write_of_fresh s f hr hg
      rw [ht, hf]
      exact (Gains.put hg).get?_of_some h

theorem writeAll_of_accepts (s : σ) (fs : List OutputFile) (hd : Accepts (files s) fs)
    (hr : ∀ f ∈ fs, refusal s f.qualifiedName = none) :
    ∃ t, writeAll s fs = (t, ⟨fs.map fun f => .generated f.qualifiedName, .ok ()⟩) ∧
      refusal t = refusal s ∧ Gains (files s) (files t) fs := by
  induction fs generalizing s with
  | nil => exact ⟨s, rfl, rfl, Gains.refl _⟩
  | cons f rest ih =>
    have hf := hd.fresh f List.mem_cons_self
    obtain ⟨t, ht, htr, htf⟩ := KeepingFiler.write_of_fresh s f (hr f List.mem_cons_self) hf
    have hg : Gains (files s) (files t) [f] := htf ▸ Gains.put hf
    have hrest : ∀ g ∈ rest, refusal t g.qualifiedName = none := by
      intro g hg
      rw [htr]
      exact hr g (List.mem_cons_of_mem f hg)
    obtain ⟨u, hu, hur, huf⟩ := ih t (hg.accepts_iff.mpr hd) hrest
    refine ⟨u, ?_, hur.trans htr, hg.trans huf⟩
    simp only [writeAll, ht, hu]
    rfl

/-- At the first refused file the writing ends, and the files before it have been written. -/
theorem writeAll_of_refused (s : σ) (written : List OutputFile) (f : OutputFile)
    (rest : List OutputFile) (message : String) (hd : Accepts (files s) (written ++ f :: rest))
    (hr : ∀ g ∈ written, refusal s g.qualifiedName = none)
    (hf : refusal s f.qualifiedName = some message) :
    ∃ t, writeAll s (written ++ f :: rest) = (t, ⟨written.map fun g => .generated g.qualifiedName,
        .error (.failed (writeFailure f.qualifiedName (.refused message)))⟩) ∧
      Gains (files s) (files t) written := by
  induction written generalizing s with
  | nil =>
    refine ⟨s, ?_, Gains.refl _⟩
    simp only [List.nil_append, writeAll, KeepingFiler.write_of_refused s f message hf]
    rfl
  | cons g more ih =>
    have hg := hd.fresh g List.mem_cons_self
    obtain ⟨t, ht, htr, htf⟩ := KeepingFiler.write_of_fresh s g (hr g List.mem_cons_self) hg
    have hgain : Gains (files s) (files t) [g] := htf ▸ Gains.put hg
    have hmore : ∀ x ∈ more, refusal t x.qualifiedName = none := by
      intro x hx
      rw [htr]
      exact hr x (List.mem_cons_of_mem g hx)
    obtain ⟨u, hu, huf⟩ := ih t (hgain.accepts_iff.mpr hd) hmore (htr ▸ hf)
    refine ⟨u, ?_, hgain.trans huf⟩
    simp only [List.cons_append, writeAll, ht, hu]
    rfl

end Writing

end Provisioning
