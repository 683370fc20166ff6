import Provisioning.Path
import Provisioning.Proofs.Source.Segments

/-! # Paths of source files

The components of a joined path are those of its two halves. A source file lies one
directory further down for every segment of its package. Only a slash can change
that: it may begin a segment, or hide a step upwards in the name of the class.
-/

namespace Provisioning

namespace Text

variable {sep : Char}

theorem pieces_ne_nil (s : List Char) : pieces sep s ≠ [] := by
  unfold pieces
  split
  · exact List.cons_ne_nil _ _
  · split
    · exact List.cons_ne_nil _ _
    · split <;> exact List.cons_ne_nil _ _

theorem pieces_append_cons (s rest : List Char) :
    pieces sep (s ++ sep :: rest) = pieces sep s ++ pieces sep rest := by
  induction s with
  | nil =>
    have hcut : pieces sep (sep :: rest) = [] :: pieces sep rest := by rw [pieces, if_pos rfl]
    exact hcut
  | cons c more ih =>
    rw [List.cons_append, pieces, pieces, ih]
    split
    · rfl
    · cases h : pieces sep more with
      | nil => exact absurd h (pieces_ne_nil more)
      | cons piece others => rfl

theorem mem_of_mem_pieces {s piece : List Char} {c : Char} (h : piece ∈ pieces sep s)
    (hc : c ∈ piece) : c ∈ s := by
  induction s generalizing piece with
  | nil =>
    rw [pieces, List.mem_singleton] at h
    exact h ▸ hc
  | cons d rest ih =>
    rw [pieces] at h
    split at h
    · rcases List.mem_cons.mp h with rfl | h
      · cases hc
      · exact List.mem_cons_of_mem d (ih h hc)
    · split at h
      · rw [List.mem_singleton] at h
        rw [h, List.mem_singleton] at hc
        exact hc ▸ List.mem_cons_self
      · rename_i first more he
        rcases List.mem_cons.mp h with rfl | h
        · rcases List.mem_cons.mp hc with rfl | hc
          · exact List.mem_cons_self
          · exact List.mem_cons_of_mem d (ih (he ▸ List.mem_cons_self) hc)
        · exact List.mem_cons_of_mem d (ih (he ▸ List.mem_cons_of_mem _ h) hc)

end Text

namespace Path

/-- The path names something below a directory that it is read from: it does not begin at the root
and takes no step upwards. -/
def StaysBelow (path : String) : Prop := isAbsolute path = false ∧ ".." ∉ components path

instance (path : String) : Decidable (StaysBelow path) := inferInstanceAs (Decidable (_ ∧ _))

theorem segments_slash (a b : String) : segments (a ++ "/" ++ b) = segments a ++ segments b := by
  have htext : (a ++ "/" ++ b).toList = a.toList ++ '/' :: b.toList := by
    simp [String.toList_append]
  rw [segments, Text.split, htext, Text.pieces_append_cons, List.map_append]
  rfl

theorem join_of_absolute (directory : String) {path : String} (h : isAbsolute path = true) :
    join directory path = path := by
  rw [join, if_pos h]

theorem isAbsolute_slash (a b : String) :
    isAbsolute (a ++ "/" ++ b) = (a.isEmpty || isAbsolute a) := by
  by_cases ha : a = ""
  · subst ha
    simp [isAbsolute, String.toList_append]
  · have hempty : a.isEmpty = false := String.isEmpty_eq_false_iff.mpr ha
    cases hl : a.toList with
    | nil => exact absurd (String.toList_eq_nil_iff.mp hl) ha
    | cons c rest => simp [isAbsolute, hempty, hl, String.toList_append]

theorem join_of_relative (directory : String) {path : String} (h : isAbsolute path = false) :
    directory = "" ∧ join directory path = path ∨
      ∃ a, (directory = a ++ "/" ++ "" ∨ directory = a ∧ a ≠ "") ∧
        join directory path = a ++ "/" ++ path := by
  by_cases hempty : directory = ""
  · subst hempty
    left
    refine ⟨rfl, ?_⟩
    simp [join, h]
  · right
    have hne : directory.isEmpty = false := String.isEmpty_eq_false_iff.mpr hempty
    by_cases hslash : directory.toList.getLast? = some '/'
    · obtain ⟨front, hfront⟩ := List.getLast?_eq_some_iff.mp hslash
      have hdirectory : directory = String.ofList front ++ "/" := by
        rw [← String.toList_inj, hfront]
        simp [String.toList_append]
      refine ⟨String.ofList front, .inl ?_, ?_⟩
      · rw [hdirectory, String.append_empty]
      · simp only [join, h, hslash, Bool.false_eq_true, ↓reduceIte, decide_true, Bool.or_true]
        rw [hdirectory]
    · refine ⟨directory, .inr ⟨rfl, hempty⟩, ?_⟩
      simp [join, h, hne, hslash]

theorem isAbsolute_join (directory path : String) :
    isAbsolute (join directory path) = (isAbsolute path || isAbsolute directory) := by
  cases h : isAbsolute path with
  | true => rw [join_of_absolute _ h, h, Bool.true_or]
  | false =>
    rw [Bool.false_or]
    rcases join_of_relative directory h with ⟨rfl, hjoin⟩ | ⟨a, hdirectory, hjoin⟩
    · rw [hjoin, h]
      rfl
    · rw [hjoin, isAbsolute_slash]
      rcases hdirectory with rfl | ⟨rfl, hne⟩
      · rw [isAbsolute_slash]
      · rw [String.isEmpty_eq_false_iff.mpr hne, Bool.false_or]

section Filtered

variable {q : String → Bool}

theorem filter_segments_join (hq : q "" = false) (directory : String) {path : String}
    (h : isAbsolute path = false) : (segments (join directory path)).filter q =
      (segments directory).filter q ++ (segments path).filter q := by
  have hnone : (segments "").filter q = [] := by
    change [""].filter q = []
    rw [List.filter_cons_of_neg (by simp [hq]), List.filter_nil]
  rcases join_of_relative directory h with ⟨rfl, hjoin⟩ | ⟨a, hdirectory, hjoin⟩
  · rw [hjoin, hnone, List.nil_append]
  · rw [hjoin, segments_slash, List.filter_append]
    rcases hdirectory with rfl | ⟨rfl, -⟩
    · rw [segments_slash, List.filter_append, hnone, List.append_nil]
    · rfl

theorem filter_segments_foldl (hq : q "" = false) (directory : String) {names : List String}
    (h : ∀ s ∈ names, isAbsolute s = false) : (segments (names.foldl join directory)).filter q =
      (segments directory).filter q ++ names.flatMap fun s => (segments s).filter q := by
  induction names generalizing directory with
  | nil => simp
  | cons s rest ih =>
    obtain ⟨hs, hrest⟩ := List.forall_mem_cons.mp h
    rw [List.foldl_cons, ih _ hrest, filter_segments_join hq _ hs, List.flatMap_cons,
      List.append_assoc]

end Filtered

theorem isAbsolute_foldl (directory : String) (names : List String) :
    isAbsolute (names.foldl join directory) =
      (isAbsolute directory || names.any isAbsolute) := by
  induction names generalizing directory with
  | nil => simp
  | cons s rest ih =>
    rw [List.foldl_cons, ih, isAbsolute_join, List.any_cons, Bool.or_comm (isAbsolute s),
      Bool.or_assoc]

def directories (package : String) : List String :=
  (Text.split '.' package).filter fun s => !s.isEmpty

theorem ofSource_eq (package name : String) :
    ofSource package name = join ((directories package).foldl join "") (name ++ ".java") := rfl

theorem isAbsolute_java (name : String) : isAbsolute (name ++ ".java") = isAbsolute name := by
  cases hl : name.toList with
  | nil => simp [isAbsolute, hl, String.toList_append]
  | cons c rest => simp [isAbsolute, hl, String.toList_append]

theorem isAbsolute_ofSource (package name : String) : isAbsolute (ofSource package name) =
    (isAbsolute name || (directories package).any isAbsolute) := by
  rw [ofSource_eq, isAbsolute_join, isAbsolute_foldl, isAbsolute_java]
  rfl

theorem filter_segments_ofSource {q : String → Bool} (hq : q "" = false) {package name : String}
    (hd : ∀ s ∈ directories package, isAbsolute s = false) (hn : isAbsolute name = false) :
    (segments (ofSource package name)).filter q =
      ((directories package).flatMap fun s => (segments s).filter q) ++
        (segments (name ++ ".java")).filter q := by
  have hnone : (segments "").filter q = [] := by
    change [""].filter q = []
    rw [List.filter_cons_of_neg (by simp [hq]), List.filter_nil]
  rw [ofSource_eq, filter_segments_join hq _ ((isAbsolute_java name).trans hn),
    filter_segments_foldl hq _ hd, hnone, List.nil_append]

theorem mem_directories {package s : String} (h : s ∈ directories package) :
    s ≠ "" ∧ '.' ∉ s.toList ∧ ∀ c ∈ s.toList, c ∈ package.toList := by
  obtain ⟨hs, hne⟩ := List.mem_filter.mp h
  obtain ⟨piece, hpiece, rfl⟩ := List.mem_map.mp hs
  refine ⟨by simpa using hne, ?_, ?_⟩
  · rw [String.toList_ofList]
    exact Text.not_mem_of_mem_pieces hpiece
  · intro c hc
    rw [String.toList_ofList] at hc
    exact Text.mem_of_mem_pieces hpiece hc

theorem directories_join {segments : List String}
    (h : ∀ s ∈ segments, Source.ClassName.IsSegment s) :
    directories (Text.join "." segments) = segments := by
  cases segments with
  | nil => rfl
  | cons s rest =>
    rw [directories, Text.split, Text.pieces_join (List.cons_ne_nil s rest) fun t ht => (h t ht).2,
      List.map_map, List.filter_eq_self.mpr]
    · simp
    · intro t ht
      obtain ⟨u, hu, rfl⟩ := List.mem_map.mp ht
      simpa using (h u hu).1

theorem parent_mem_components {path : String} :
    ".." ∈ components path ↔ ".." ∈ segments path := by
  have hstep : (!isIdle "..") = true := by decide
  simp [components, List.mem_filter, hstep]

theorem parent_not_mem_segments {s : String} (h : '.' ∉ s.toList) : ".." ∉ segments s := by
  intro hm
  obtain ⟨piece, hpiece, heq⟩ := List.mem_map.mp hm
  have htext : piece = "..".toList := by rw [← heq, String.toList_ofList]
  have hdot : '.' ∈ piece := by
    rw [htext]
    decide
  exact h (Text.mem_of_mem_pieces hpiece hdot)

/-- A source file leaves its directory exactly when the name of its class or a segment of its package
begins with a slash, or the name holds a step upwards. -/
theorem staysBelow_ofSource_iff (package name : String) : StaysBelow (ofSource package name) ↔
    (∀ s ∈ directories package, isAbsolute s = false) ∧ isAbsolute name = false ∧
      ".." ∉ segments (name ++ ".java") := by
  have habsolute : isAbsolute (ofSource package name) = false ↔
      isAbsolute name = false ∧ ∀ s ∈ directories package, isAbsolute s = false := by
    rw [isAbsolute_ofSource, Bool.or_eq_false_iff, List.any_eq_false]
    simp
  have hsegments : ∀ (_ : ∀ s ∈ directories package, isAbsolute s = false)
      (_ : isAbsolute name = false), ".." ∈ components (ofSource package name) ↔
        ".." ∈ segments (name ++ ".java") := by
    intro hd hn
    rw [components, filter_segments_ofSource (by decide) hd hn, List.mem_append]
    constructor
    · rintro (h | h)
      · obtain ⟨s, hs, h⟩ := List.mem_flatMap.mp h
        exact absurd (List.mem_filter.mp h).1 (parent_not_mem_segments (mem_directories hs).2.1)
      · exact (List.mem_filter.mp h).1
    · exact fun h => .inr (parent_mem_components.mpr h)
  rw [StaysBelow, habsolute]
  constructor
  · rintro ⟨⟨hn, hd⟩, hup⟩
    exact ⟨hd, hn, fun h => hup ((hsegments hd hn).mpr h)⟩
  · rintro ⟨hd, hn, hup⟩
    exact ⟨⟨hn, hd⟩, fun h => hup ((hsegments hd hn).mp h)⟩

theorem segments_of_slashFree {s : String} (h : '/' ∉ s.toList) : segments s = [s] := by
  rw [segments, Text.split, Text.pieces_of_not_mem h]
  simp

theorem isAbsolute_of_slashFree {s : String} (h : '/' ∉ s.toList) : isAbsolute s = false := by
  cases hl : s.toList with
  | nil => simp [isAbsolute, hl]
  | cons c rest =>
    have hc : c ≠ '/' := by
      rintro rfl
      exact h (hl ▸ List.mem_cons_self)
    simp [isAbsolute, hl, hc]

section SlashFree

variable {package name : String}

def names (package name : String) : List String := directories package ++ [name ++ ".java"]

theorem slashFree_java (hn : '/' ∉ name.toList) : '/' ∉ (name ++ ".java").toList := by
  have hsuffix : '/' ∉ ".java".toList := by decide
  rw [String.toList_append, List.mem_append, not_or]
  exact ⟨hn, hsuffix⟩

theorem filter_segments_of_slashFree {q : String → Bool} (hq : q "" = false)
    (hp : '/' ∉ package.toList) (hn : '/' ∉ name.toList) :
    (segments (ofSource package name)).filter q = (names package name).filter q := by
  have hdirectory : ∀ s ∈ directories package, '/' ∉ s.toList := by
    intro s hs h
    exact hp ((mem_directories hs).2.2 _ h)
  rw [filter_segments_ofSource hq (fun s hs => isAbsolute_of_slashFree (hdirectory s hs))
      (isAbsolute_of_slashFree hn), names, List.filter_append,
    segments_of_slashFree (slashFree_java hn)]
  congr 1
  have hsegments : ∀ l : List String, (∀ s ∈ l, '/' ∉ s.toList) →
      (l.flatMap fun s => (segments s).filter q) = l.filter q := by
    intro l hl
    induction l with
    | nil => rfl
    | cons s rest ih =>
      obtain ⟨hs, hrest⟩ := List.forall_mem_cons.mp hl
      rw [List.flatMap_cons, ih hrest, segments_of_slashFree hs, ← List.filter_append]
      rfl
  exact hsegments _ hdirectory

theorem plain_names {s : String} (h : s ∈ names package name) : s ≠ "" ∧ s ≠ "." ∧ s ≠ ".." := by
  rcases List.mem_append.mp h with h | h
  · obtain ⟨hne, hdot, -⟩ := mem_directories h
    refine ⟨hne, ?_, ?_⟩
    · rintro rfl
      exact hdot (by decide)
    · rintro rfl
      exact hdot (by decide)
  · rw [List.mem_singleton] at h
    have hj : 'j' ∈ s.toList := by
      rw [h, String.toList_append]
      exact List.mem_append_right _ (by decide)
    refine ⟨?_, ?_, ?_⟩ <;>
      · rintro rfl
        revert hj
        decide

theorem steps_ofSource (hp : '/' ∉ package.toList) (hn : '/' ∉ name.toList) :
    steps (ofSource package name) = names package name := by
  rw [steps, filter_segments_of_slashFree (by decide) hp hn, List.filter_eq_self]
  intro s hs
  simpa using (plain_names hs).1

theorem components_ofSource (hp : '/' ∉ package.toList) (hn : '/' ∉ name.toList) :
    components (ofSource package name) = names package name := by
  rw [components, filter_segments_of_slashFree (by decide) hp hn, List.filter_eq_self]
  intro s hs
  obtain ⟨hne, hdot, -⟩ := plain_names hs
  simp [isIdle, hne, hdot]

theorem staysBelow_of_slashFree (hp : '/' ∉ package.toList) (hn : '/' ∉ name.toList) :
    StaysBelow (ofSource package name) := by
  refine (staysBelow_ofSource_iff package name).mpr
    ⟨?_, isAbsolute_of_slashFree hn, ?_⟩
  · intro s hs
    exact isAbsolute_of_slashFree fun h => hp ((mem_directories hs).2.2 _ h)
  · rw [segments_of_slashFree (slashFree_java hn), List.mem_singleton]
    have hmem : name ++ ".java" ∈ names package name :=
      List.mem_append_right _ (List.mem_singleton.mpr rfl)
    exact (plain_names hmem).2.2.symm

theorem names_inj {more other : String} {segments rest : List String}
    (hp : package = Text.join "." segments) (hs : ∀ s ∈ segments, Source.ClassName.IsSegment s)
    (hm : more = Text.join "." rest) (hr : ∀ s ∈ rest, Source.ClassName.IsSegment s)
    (h : names package name = names more other) : package = more ∧ name = other := by
  obtain ⟨hdirectories, hjava⟩ := List.append_inj' h rfl
  rw [hp, hm, directories_join hs, directories_join hr] at hdirectories
  rw [hp, hm, hdirectories]
  exact ⟨rfl, (String.append_left_inj _).mp (List.singleton_inj.mp hjava)⟩

end SlashFree

end Path

end Provisioning
