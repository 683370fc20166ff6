import Mathlib.Data.List.Basic
import Mathlib.Data.List.DropRight
import Provisioning.Source.ClassName

/-! # Reading class names back

Joining segments with points can be undone as long as no segment holds a point.
A regular class name, whose package is in lower case, is read back from its
canonical name, so different regular names differ in writing.
-/

namespace Provisioning

namespace Text

variable {sep : Char}

theorem pieces_of_not_mem {s : List Char} (h : sep ∉ s) : pieces sep s = [s] := by
  induction s with
  | nil => rfl
  | cons c rest ih =>
    rw [List.mem_cons, not_or] at h
    rw [pieces, if_neg (Ne.symm h.1), ih h.2]

theorem pieces_append {s : List Char} (rest : List Char) (h : sep ∉ s) :
    pieces sep (s ++ sep :: rest) = s :: pieces sep rest := by
  induction s with
  | nil => rw [List.nil_append, pieces, if_pos rfl]
  | cons c more ih =>
    rw [List.mem_cons, not_or] at h
    rw [List.cons_append, pieces, if_neg (Ne.symm h.1), ih h.2]

theorem not_mem_of_mem_pieces {s piece : List Char} (h : piece ∈ pieces sep s) : sep ∉ piece := by
  induction s generalizing piece with
  | nil => simp_all [pieces]
  | cons c rest ih =>
    rw [pieces] at h
    split at h
    · rcases List.mem_cons.mp h with rfl | h
      · exact List.not_mem_nil
      · exact ih h
    · rename_i hc
      split at h
      · rw [List.mem_singleton] at h
        simp [h, Ne.symm hc]
      · rename_i first more he
        have hfirst : sep ∉ first := ih (he ▸ List.mem_cons_self)
        rcases List.mem_cons.mp h with rfl | h
        · simp [Ne.symm hc, hfirst]
        · exact ih (he ▸ List.mem_cons_of_mem _ h)

theorem join_cons_cons (sep s t : String) (rest : List String) :
    join sep (s :: t :: rest) = s ++ sep ++ join sep (t :: rest) := rfl

theorem join_append (sep : String) {as bs : List String} (ha : as ≠ []) (hb : bs ≠ []) :
    join sep (as ++ bs) = join sep as ++ sep ++ join sep bs := by
  induction as with
  | nil => exact absurd rfl ha
  | cons a rest ih =>
    cases rest with
    | nil =>
      cases bs with
      | nil => exact absurd rfl hb
      | cons b more => rfl
    | cons a' rest =>
      have ih := ih (List.cons_ne_nil _ _)
      rw [List.cons_append] at ih
      rw [List.cons_append, List.cons_append, join_cons_cons, ih, join_cons_cons]
      simp only [String.append_assoc]

theorem pieces_join {segments : List String} (hne : segments ≠ [])
    (h : ∀ s ∈ segments, '.' ∉ s.toList) :
    pieces '.' (join "." segments).toList = segments.map String.toList := by
  induction segments with
  | nil => exact absurd rfl hne
  | cons s rest ih =>
    obtain ⟨hs, hrest⟩ := List.forall_mem_cons.mp h
    cases rest with
    | nil => exact pieces_of_not_mem hs
    | cons t more =>
      have happend : (join "." (s :: t :: more)).toList =
          s.toList ++ '.' :: (join "." (t :: more)).toList := by
        simp [join_cons_cons, String.toList_append]
      rw [happend, pieces_append _ hs, ih (List.cons_ne_nil _ _) hrest]
      rfl

theorem exists_mem_pieces_iff {c : Char} (hc : c ≠ sep) (s : List Char) :
    (∃ piece ∈ pieces sep s, c ∈ piece) ↔ c ∈ s := by
  induction s with
  | nil => simp [pieces]
  | cons d rest ih =>
    rw [pieces, List.mem_cons, ← ih]
    split
    · rename_i hd
      simp [hd, hc]
    · split
      · rename_i hnil
        simp [hnil]
      · rename_i piece more hpieces
        simp [hpieces, or_assoc]

theorem mem_join_iff {c : Char} (hc : c ≠ '.') (segments : List String) :
    c ∈ (join "." segments).toList ↔ ∃ s ∈ segments, c ∈ s.toList := by
  induction segments with
  | nil => simp [join]
  | cons s rest ih =>
    cases rest with
    | nil => simp [join]
    | cons t more =>
      rw [List.exists_mem_cons_iff, ← ih]
      simp [join_cons_cons, String.toList_append, hc]

end Text

namespace Source.ClassName

open Text

def IsSegment (s : String) : Prop := s ≠ "" ∧ '.' ∉ s.toList

def IsPackage (package : String) : Prop :=
  ∃ segments, segments ≠ [] ∧ package = join "." segments ∧
    ∀ s ∈ segments, IsSegment s ∧ startsUpper s.toList = false

/-- A class name in a package in lower case. A nested class has an outer class in upper case. -/
structure Regular (c : ClassName) : Prop where
  isPackage : IsPackage c.package
  isSegment : ∀ s ∈ c.simpleNames, IsSegment s
  outer : startsUpper c.outer.toList = true ∨ c.inner = []

/-- Segments in lower case before an outer class are its package. -/
theorem guessSplit_append {package inner : List (List Char)} {outer : List Char}
    (hp : ∀ s ∈ package, startsUpper s = false) (ho : startsUpper outer = true ∨ inner = []) :
    guessSplit (package ++ outer :: inner) = (package, outer :: inner) := by
  have hlower : ∀ s ∈ package, (!startsUpper s) = true := by
    intro s hs
    rw [hp s hs]
    rfl
  unfold guessSplit
  rw [List.dropWhile_append_of_pos hlower, List.takeWhile_append_of_pos hlower]
  cases hu : startsUpper outer with
  | true => simp [hu]
  | false =>
    have hinner : inner = [] := by simpa [hu] using ho
    simp [hu, hinner]

theorem guess_join {package inner : List String} {outer : String}
    (hp : ∀ s ∈ package, IsSegment s ∧ startsUpper s.toList = false)
    (hn : ∀ s ∈ outer :: inner, IsSegment s)
    (ho : startsUpper outer.toList = true ∨ inner = []) :
    guess (join "." (package ++ outer :: inner)) = ⟨join "." package, outer, inner⟩ := by
  have hall : ∀ s ∈ package ++ outer :: inner, IsSegment s := by
    intro s hs
    rcases List.mem_append.mp hs with hs | hs
    · exact (hp s hs).1
    · exact hn s hs
  have hfilter : (pieces '.' (join "." (package ++ outer :: inner)).toList).filter
      (fun s => !s.isEmpty) = package.map String.toList ++ outer.toList :: inner.map String.toList := by
    rw [pieces_join (by simp) fun s hs => (hall s hs).2, List.filter_eq_self.mpr]
    · simp
    · intro s hs
      obtain ⟨t, ht, rfl⟩ := List.mem_map.mp hs
      simpa using (hall t ht).1
  have hsplit : guessSplit (package.map String.toList ++ outer.toList :: inner.map String.toList) =
      (package.map String.toList, outer.toList :: inner.map String.toList) := by
    refine guessSplit_append ?_ (ho.imp_right fun h => by rw [h, List.map_nil])
    intro s hs
    obtain ⟨t, ht, rfl⟩ := List.mem_map.mp hs
    exact (hp t ht).2
  unfold guess
  simp only [hfilter, hsplit]
  simp [Function.comp_def]

theorem join_ne_empty {s : String} (rest : List String) (h : s ≠ "") : join "." (s :: rest) ≠ "" := by
  cases rest with
  | nil => exact h
  | cons t more => simp [join_cons_cons, h]

theorem isPackage_ne_empty {package : String} (h : IsPackage package) : package ≠ "" := by
  obtain ⟨segments, hne, rfl, hs⟩ := h
  cases segments with
  | nil => exact absurd rfl hne
  | cons s rest => exact join_ne_empty rest (hs s List.mem_cons_self).1.1

/-- The canonical name is all segments with points between them, be there a package or not. -/
theorem canonical_join {package : List String} (h : ∀ s ∈ package, s ≠ "") (outer : String)
    (inner : List String) : canonical ⟨join "." package, outer, inner⟩ =
      join "." (package ++ outer :: inner) := by
  cases package with
  | nil => rfl
  | cons s rest =>
    have hne : (join "." (s :: rest)).isEmpty = false := by
      simpa using join_ne_empty rest (h s List.mem_cons_self)
    rw [join_append "." (List.cons_ne_nil _ _) (List.cons_ne_nil _ _), canonical, hne]
    rfl

namespace Regular

variable {a b c : ClassName}

theorem guess_canonical (h : c.Regular) : guess c.canonical = c := by
  obtain ⟨segments, -, he, hs⟩ := h.isPackage
  have hcanonical := canonical_join (fun s hm => (hs s hm).1.1) c.outer c.inner
  rw [← he] at hcanonical
  rw [hcanonical, guess_join hs h.isSegment h.outer, ← he]

theorem guess_dotted (h : c.Regular) : guess c.dotted = ⟨"", c.outer, c.inner⟩ :=
  @guess_join [] c.inner c.outer (fun _ h => absurd h List.not_mem_nil) h.isSegment h.outer

theorem canonical_inj (ha : a.Regular) (hb : b.Regular) (h : a.canonical = b.canonical) : a = b := by
  rw [← ha.guess_canonical, h, hb.guess_canonical]

theorem simpleNames_of_dotted_eq (ha : a.Regular) (hb : b.Regular) (h : a.dotted = b.dotted) :
    a.outer = b.outer ∧ a.inner = b.inner := by
  have hguess := congrArg guess h
  rw [ha.guess_dotted, hb.guess_dotted] at hguess
  injection hguess with _ houter hinner
  exact ⟨houter, hinner⟩

/-- A name without its package is never taken for one with a package. -/
theorem dotted_ne_canonical (ha : a.Regular) (hb : b.Regular) : a.dotted ≠ b.canonical := by
  intro h
  have hguess := congrArg guess h
  rw [ha.guess_dotted, hb.guess_canonical] at hguess
  exact isPackage_ne_empty hb.isPackage (congrArg ClassName.package hguess).symm

end Regular

/-- The two parts of some segments. The package is in lower case, and if a class follows that is
nested, the outermost class is in upper case. -/
theorem guessSplit_spec {segments package inner : List (List Char)} {outer : List Char}
    (h : guessSplit segments = (package, outer :: inner)) :
    segments = package ++ outer :: inner ∧ (∀ s ∈ package, startsUpper s = false) ∧
      (startsUpper outer = true ∨ inner = []) := by
  unfold guessSplit at h
  split at h
  · rename_i hall
    rw [List.dropWhile_eq_nil_iff] at hall
    rcases List.eq_nil_or_concat segments with rfl | ⟨front, last, rfl⟩
    · cases h
    · simp only [List.concat_eq_append, List.dropLast_concat, List.length_append,
        List.length_singleton, Nat.add_sub_cancel, List.drop_left, Prod.mk.injEq,
        List.cons.injEq] at h hall ⊢
      obtain ⟨rfl, rfl, rfl⟩ := h
      refine ⟨rfl, ?_, .inr rfl⟩
      intro s hs
      simpa using hall s (List.mem_append_left _ hs)
  · injection h with hpackage hnames
    have happend := List.takeWhile_append_dropWhile (p := fun s => !startsUpper s) (l := segments)
    rw [hpackage, hnames] at happend
    refine ⟨happend.symm, ?_, ?_⟩
    · intro s hs
      have htake := List.mem_takeWhile_imp (hpackage ▸ hs)
      simpa using htake
    · have hhead := List.head_dropWhile_not (fun s => !startsUpper s) (l := segments)
        (by rw [hnames]; exact List.cons_ne_nil _ _)
      simp only [hnames, List.head_cons] at hhead
      exact .inl (by simpa using hhead)

/-- What is read as a class in a package is a regular class name. -/
theorem regular_guess {name : String} (h : (guess name).package ≠ "") : (guess name).Regular := by
  have hsegments : ∀ s ∈ (pieces '.' name.toList).filter fun s => !s.isEmpty,
      IsSegment (String.ofList s) := by
    intro s hs
    obtain ⟨hm, hne⟩ := List.mem_filter.mp hs
    exact ⟨by simpa using hne, by simpa using not_mem_of_mem_pieces hm⟩
  unfold guess at h ⊢
  cases hsplit : guessSplit ((pieces '.' name.toList).filter fun s => !s.isEmpty) with
  | mk package names =>
    simp only [hsplit] at h ⊢
    cases names with
    | nil => exact absurd rfl h
    | cons outer inner =>
      obtain ⟨happend, hlower, houter⟩ := guessSplit_spec hsplit
      rw [happend] at hsegments
      refine ⟨⟨package.map String.ofList, ?_, rfl, ?_⟩, ?_, ?_⟩
      · rintro hnil
        exact h (congrArg (join ".") hnil)
      · intro s hs
        obtain ⟨t, ht, rfl⟩ := List.mem_map.mp hs
        exact ⟨hsegments t (List.mem_append_left _ ht), by simpa using hlower t ht⟩
      · intro s hs
        have hs : s ∈ (outer :: inner).map String.ofList := hs
        obtain ⟨t, ht, rfl⟩ := List.mem_map.mp hs
        exact hsegments t (List.mem_append_right _ ht)
      · simpa using houter

/-- Reading a name as a class keeps its characters, points aside. -/
theorem mem_canonical_guess_iff {c : Char} (hc : c ≠ '.') (name : String) :
    c ∈ (guess name).canonical.toList ↔ c ∈ name.toList := by
  have hsegments : (∃ s ∈ (pieces '.' name.toList).filter (fun s => !s.isEmpty), c ∈ s) ↔
      c ∈ name.toList := by
    rw [← exists_mem_pieces_iff hc]
    simp only [List.mem_filter, and_assoc]
    refine exists_congr fun s => and_congr_right fun _ => ?_
    cases s <;> simp
  unfold guess
  cases hsplit : guessSplit ((pieces '.' name.toList).filter fun s => !s.isEmpty) with
  | mk package names =>
    simp only [hsplit]
    cases names with
    | nil =>
      have hcanonical : (topLevelOf "" name).canonical = name := rfl
      dsimp only
      rw [hcanonical]
    | cons outer inner =>
      obtain ⟨happend, -, -⟩ := guessSplit_spec hsplit
      have hpackage := mem_join_iff hc (package.map String.ofList)
      have hdotted := mem_join_iff hc ((outer :: inner).map String.ofList)
      have hall : c ∈ name.toList ↔ c ∈ (join "." (package.map String.ofList)).toList ∨
          c ∈ (join "." ((outer :: inner).map String.ofList)).toList := by
        rw [hpackage, hdotted, ← hsegments, happend]
        simp [or_and_right, exists_or]
      rw [hall]
      dsimp only
      unfold canonical
      dsimp only
      split
      · rename_i hempty
        rw [String.isEmpty_iff.mp hempty]
        simp [dotted, simpleNames]
      · simp [dotted, simpleNames, hc]

end Source.ClassName

end Provisioning
