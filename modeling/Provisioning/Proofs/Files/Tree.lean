import Provisioning.Filer
import Provisioning.Proofs.Files.Paths

/-! # What writing leaves of a tree

Making directories keeps all that is there, and a written file changes its own place
only. A path that names a place goes on naming it. So of all files that have been
written, those at one place share it, and the last one of them is read there.
-/

namespace Provisioning

namespace FileTree

variable {t u v : FileTree}

theorem entry?_root (t : FileTree) : t.entry? [] = some .directory := rfl

theorem entry?_put_of_ne {place other : List String} {e : Entry} (h : other ≠ place) :
    FileTree.entry? (t.put place e) other = t.entry? other := by
  unfold entry? put
  split
  · rfl
  · congr 1
    rw [List.find?_append, List.find?_filter]
    have hsame : (fun a : List String × Entry => !decide (a.1 = place) && decide (a.1 = other)) =
        fun a => decide (a.1 = other) := by
      funext a
      by_cases ha : a.1 = other
      · simp [ha, h]
      · simp [ha]
    simp [hsame, Ne.symm h]

theorem entry?_put_self {place : List String} {e : Entry} (h : place ≠ []) :
    FileTree.entry? (t.put place e) place = some e := by
  have hne : place.isEmpty = false := by simpa using h
  have hrest : (t.entries.filter (·.1 ≠ place)).find? (·.1 = place) = none := by
    rw [List.find?_eq_none]
    intro a ha
    simpa using (List.mem_filter.mp ha).2
  simp only [ entry?, put, hne, List.find?_append, hrest]
  simp

/-- All entries are kept, and paths begin where they did. -/
structure Extends (t u : FileTree) : Prop where
  workingDirectory : u.workingDirectory = t.workingDirectory
  kept : ∀ place e, t.entry? place = some e → u.entry? place = some e

structure Grows (t u : FileTree) : Prop where
  workingDirectory : u.workingDirectory = t.workingDirectory
  directory : ∀ place, t.entry? place = some .directory → u.entry? place = some .directory

theorem Extends.refl (t : FileTree) : Extends t t := ⟨rfl, fun _ _ h => h⟩

theorem Extends.trans (h : Extends t u) (k : Extends u v) : Extends t v :=
  ⟨k.workingDirectory.trans h.workingDirectory, fun place e he => k.kept place e (h.kept place e he)⟩

theorem Extends.grows (h : Extends t u) : Grows t u :=
  ⟨h.workingDirectory, fun place => h.kept place .directory⟩

theorem Grows.trans (h : Grows t u) (k : Grows u v) : Grows t v :=
  ⟨k.workingDirectory.trans h.workingDirectory, fun place hp => k.directory place (h.directory place hp)⟩

theorem extends_put {place : List String} (e : Entry) (h : t.entry? place = none) :
    Extends t (t.put place e) := by
  refine ⟨rfl, ?_⟩
  intro other d hd
  have hne : other ≠ place := by
    rintro rfl
    rw [h] at hd
    cases hd
  rw [entry?_put_of_ne hne, hd]

theorem grows_put {place : List String} (e : Entry) (h : t.entry? place ≠ some .directory) :
    Grows t (t.put place e) := by
  refine ⟨rfl, ?_⟩
  intro other hd
  have hne : other ≠ place := by
    rintro rfl
    exact h hd
  rw [entry?_put_of_ne hne, hd]

inductive Leads (place : List String) : String → List String → Prop
  | stay : Leads place "." place
  | up : Leads place ".." place.dropLast
  | down {name : String} (hstay : name ≠ ".") (hup : name ≠ "..")
      (hshort : ¬ maxNameLength < name.utf8ByteSize) : Leads place name (place ++ [name])

theorem follow_cons_eq_ok {place rest q : List String} {name : String} :
    t.follow place (name :: rest) = .ok q ↔ t.entry? place = some .directory ∧
      ∃ next, Leads place name next ∧ t.follow next rest = .ok q := by
  constructor
  · intro h
    unfold follow at h
    cases he : t.entry? place with
    | none =>
      rw [he] at h
      cases h
    | some e =>
      cases e with
      | file contents =>
        rw [he] at h
        cases h
      | directory =>
        simp only [he] at h
        split at h
        · rename_i hstay
          exact ⟨rfl, place, hstay ▸ .stay, h⟩
        · rename_i hstay
          split at h
          · rename_i hup
            exact ⟨rfl, place.dropLast, hup ▸ .up, h⟩
          · rename_i hup
            split at h
            · cases h
            · rename_i hshort
              exact ⟨rfl, place ++ [name], .down hstay hup hshort, h⟩
  · rintro ⟨he, next, hleads, h⟩
    unfold follow
    cases hleads with
    | stay => simpa only [he, ↓reduceIte] using h
    | up => simpa [he] using h
    | down hstay hup hshort => simpa only [he, hstay, hup, hshort, ↓reduceIte] using h

theorem Grows.follow (h : Grows t u) {place names q : List String}
    (hf : t.follow place names = .ok q) : u.follow place names = .ok q := by
  induction names generalizing place with
  | nil => exact hf
  | cons name rest ih =>
    obtain ⟨he, next, hleads, hnext⟩ := follow_cons_eq_ok.mp hf
    exact follow_cons_eq_ok.mpr ⟨h.directory place he, next, hleads, ih hnext⟩

theorem follow_append {place front back q : List String} (h : t.follow place (front ++ back) = .ok q) :
    ∃ base, t.follow place front = .ok base ∧ t.follow base back = .ok q := by
  induction front generalizing place with
  | nil => exact ⟨place, rfl, h⟩
  | cons name rest ih =>
    obtain ⟨he, next, hleads, hnext⟩ := follow_cons_eq_ok.mp h
    obtain ⟨base, hbase, hq⟩ := ih hnext
    exact ⟨base, follow_cons_eq_ok.mpr ⟨he, next, hleads, hbase⟩, hq⟩

theorem follow_of_plain {place names q : List String} (hn : ∀ s ∈ names, s ≠ "." ∧ s ≠ "..")
    (h : t.follow place names = .ok q) : q = place ++ names := by
  induction names generalizing place with
  | nil =>
    rw [List.append_nil]
    exact (Except.ok.inj h).symm
  | cons name rest ih =>
    obtain ⟨⟨hstay, hup⟩, hrest⟩ := List.forall_mem_cons.mp hn
    obtain ⟨-, next, hleads, hnext⟩ := follow_cons_eq_ok.mp h
    cases hleads with
    | stay => exact absurd rfl hstay
    | up => exact absurd rfl hup
    | down => rw [ih hrest hnext, List.append_assoc, List.singleton_append]

theorem locate_eq_ok {path : String} {q : List String} : t.locate path = .ok q ↔
    checkPath path = .ok () ∧ t.follow (t.origin path) (Path.steps path) = .ok q := by
  unfold locate
  cases checkPath path with
  | error e => simp [bind, Except.bind]
  | ok _ => simp [bind, Except.bind]

theorem Grows.locate (h : Grows t u) {path : String} {q : List String}
    (hl : t.locate path = .ok q) : u.locate path = .ok q := by
  have horigin : u.origin path = t.origin path := by rw [origin, origin, h.workingDirectory]
  obtain ⟨hcheck, hfollow⟩ := locate_eq_ok.mp hl
  refine locate_eq_ok.mpr ⟨hcheck, ?_⟩
  rw [horigin]
  exact h.follow hfollow

/-- Paths with the same beginning and different plain steps behind it name different places. -/
theorem steps_eq_of_locate {root p r : String} {q : List String}
    (hp : Path.isAbsolute p = false) (hr : Path.isAbsolute r = false)
    (hps : ∀ s ∈ Path.steps p, s ≠ "." ∧ s ≠ "..") (hrs : ∀ s ∈ Path.steps r, s ≠ "." ∧ s ≠ "..")
    (hlp : t.locate (Path.join root p) = .ok q) (hlr : t.locate (Path.join root r) = .ok q) :
    Path.steps p = Path.steps r := by
  have split : ∀ {x : String}, Path.isAbsolute x = false →
      (∀ s ∈ Path.steps x, s ≠ "." ∧ s ≠ "..") → t.locate (Path.join root x) = .ok q →
      ∃ base, t.follow (t.origin root) (Path.steps root) = .ok base ∧ q = base ++ Path.steps x := by
    intro x hx hxs hlx
    have hsteps : Path.steps (Path.join root x) = Path.steps root ++ Path.steps x :=
      Path.filter_segments_join (by decide) root hx
    have horigin : t.origin (Path.join root x) = t.origin root := by
      rw [origin, origin, Path.isAbsolute_join, hx, Bool.false_or]
    obtain ⟨-, hfollow⟩ := locate_eq_ok.mp hlx
    rw [hsteps, horigin] at hfollow
    obtain ⟨base, hbase, hq⟩ := follow_append hfollow
    exact ⟨base, hbase, follow_of_plain hxs hq⟩
  obtain ⟨base, hbase, hq⟩ := split hp hps hlp
  obtain ⟨other, hother, hq'⟩ := split hr hrs hlr
  have hsame : base = other := Except.ok.inj (hbase.symm.trans hother)
  rw [hq, hsame] at hq'
  exact List.append_cancel_left hq'

theorem extends_makeAlong (t : FileTree) (made : Bool) (place names : List String) :
    Extends t (t.makeAlong made place names).1 := by
  induction names generalizing t made place with
  | nil => exact .refl t
  | cons name rest ih =>
    unfold makeAlong
    split
    · exact ih t made place
    · split
      · exact ih t made place.dropLast
      · split
        · exact .refl t
        · split
          · exact ih t made _
          · exact .refl t
          · rename_i hnone
            exact (extends_put .directory hnone).trans (ih _ true _)

theorem extends_makeParents (t : FileTree) (path : String) : Extends t (t.makeParents path).1 := by
  unfold makeParents
  dsimp only
  split
  · exact .refl t
  · split
    · exact .refl t
    · exact extends_makeAlong t false _ _

theorem writeFile_eq_ok {path text : String} (h : t.writeFile path text = .ok u) :
    Path.endsInSlash path = false ∧ ∃ q, t.locate path = .ok q ∧
      t.entry? q ≠ some .directory ∧ u = t.put q (.file (.text text)) := by
  unfold writeFile at h
  split at h
  · cases habove : t.locateAbove path with
    | error e =>
      rw [habove] at h
      cases h
    | ok place =>
      rw [habove] at h
      cases h
  · rename_i hslash
    cases hq : t.locate path with
    | error e =>
      rw [hq] at h
      cases h
    | ok q =>
      rw [hq] at h
      refine ⟨by simpa using hslash, q, rfl, ?_⟩
      cases he : t.entry? q with
      | none =>
        simp only [bind, Except.bind, he] at h
        exact ⟨by simp, (Except.ok.inj h).symm⟩
      | some e =>
        cases e with
        | directory =>
          simp only [bind, Except.bind, he] at h
          cases h
        | file contents =>
          simp only [bind, Except.bind, he] at h
          exact ⟨by simp, (Except.ok.inj h).symm⟩

theorem readFile_of_entry {path text : String} {q : List String} (hl : t.locate path = .ok q)
    (hs : Path.endsInSlash path = false) (he : t.entry? q = some (.file (.text text))) :
    t.readFile path = .ok text := by
  simp [readFile, hl, he, hs, bind, Except.bind]

end FileTree

open FileTree (Extends Grows)

section Storing

variable {root : String} {t u : FileTree} {f : OutputFile}

/-- The tree in which a file has just been written: it is at the place that its path names, and what
was elsewhere is still there. -/
structure Stored (root : String) (f : OutputFile) (t u : FileTree) (place : List String) : Prop where
  grows : Grows t u
  notSlash : Path.endsInSlash (Path.join root f.path) = false
  locate : u.locate (Path.join root f.path) = .ok place
  entry : u.entry? place = some (.file (.text f.contents))
  kept : ∀ other e, other ≠ place → t.entry? other = some e → u.entry? other = some e

theorem DirectoryFiler.store_of_ok (h : store root t f = (u, .ok ())) :
    ∃ place, Stored root f t u place := by
  have hmade := t.extends_makeParents (Path.join root f.path)
  unfold store at h
  dsimp only at h
  split at h
  · cases h
  · rename_i made hm
    rw [hm] at hmade
    split at h
    · rename_i written hw
      obtain ⟨rfl, -⟩ := Prod.mk.inj h
      obtain ⟨hslash, place, hplace, hfree, rfl⟩ := FileTree.writeFile_eq_ok hw
      have hgrows := FileTree.grows_put (.file (.text f.contents)) hfree
      have hne : place ≠ [] := by
        rintro rfl
        exact hfree made.entry?_root
      refine ⟨place, hmade.grows.trans hgrows, hslash, hgrows.locate hplace,
        FileTree.entry?_put_self hne, ?_⟩
      intro other e ho he
      rw [FileTree.entry?_put_of_ne ho]
      exact hmade.kept other e he
    · cases h

theorem DirectoryFiler.extends_of_error {e : WriteError} (h : store root t f = (u, .error e)) :
    Extends t u := by
  have hmade := t.extends_makeParents (Path.join root f.path)
  unfold store at h
  dsimp only at h
  split at h
  · rename_i made e' hm
    obtain ⟨rfl, -⟩ := Prod.mk.inj h
    rw [hm] at hmade
    exact hmade
  · rename_i made hm
    rw [hm] at hmade
    split at h
    · cases h
    · obtain ⟨rfl, -⟩ := Prod.mk.inj h
      exact hmade

theorem DirectoryFiler.store_eq (root : String) (tree : FileTree) (f : OutputFile) :
    (∃ e, (store root tree f).2 = .error (.system e)) ∨ (store root tree f).2 = .ok () := by
  unfold store
  dsimp only
  split
  · exact .inl ⟨_, rfl⟩
  · split
    · exact .inr rfl
    · exact .inl ⟨_, rfl⟩

theorem DirectoryFiler.write_of_created {s : DirectoryFiler} {f : OutputFile}
    (h : s.created.contains f.qualifiedName = true) :
    s.write f = (s, .error (.alreadyCreated f.qualifiedName)) := by
  rw [write, if_pos h]

theorem DirectoryFiler.write_of_new {s : DirectoryFiler} {f : OutputFile}
    (h : s.created.contains f.qualifiedName = false) :
    s.write f = ({ s with
        created := s.created ++ [f.qualifiedName]
        tree := (store s.root s.tree f).1 }, (store s.root s.tree f).2) := by
  rw [write, if_neg (h ▸ Bool.false_ne_true)]

end Storing

/-- The files have been written below the root, one after the other: at the place of each of them one
of those that go there is found. -/
def Kept (root : String) (fs : List OutputFile) (t : FileTree) : Prop :=
  ∀ f ∈ fs, Path.endsInSlash (Path.join root f.path) = false ∧
    ∃ place, t.locate (Path.join root f.path) = .ok place ∧
      ∃ g ∈ fs, t.locate (Path.join root g.path) = .ok place ∧
        t.entry? place = some (.file (.text g.contents))

namespace Kept

variable {root : String} {fs : List OutputFile} {t u : FileTree}

theorem nil (root : String) (t : FileTree) : Kept root [] t :=
  fun _ h => absurd h List.not_mem_nil

theorem of_extends (h : Kept root fs t) (hu : Extends t u) : Kept root fs u := by
  intro f hf
  obtain ⟨hslash, place, hplace, g, hg, hgplace, hentry⟩ := h f hf
  exact ⟨hslash, place, hu.grows.locate hplace, g, hg, hu.grows.locate hgplace,
    hu.kept place _ hentry⟩

theorem stored (h : Kept root fs t) {f : OutputFile} {place : List String}
    (hs : Stored root f t u place) : Kept root (fs ++ [f]) u := by
  have hf : f ∈ fs ++ [f] := List.mem_append_right _ (List.mem_singleton.mpr rfl)
  intro x hx
  rcases List.mem_append.mp hx with hx | hx
  · obtain ⟨hslash, at', hat, g, hg, hgat, hentry⟩ := h x hx
    refine ⟨hslash, at', hs.grows.locate hat, ?_⟩
    by_cases hsame : at' = place
    · subst hsame
      exact ⟨f, hf, hs.locate, hs.entry⟩
    · exact ⟨g, List.mem_append_left _ hg, hs.grows.locate hgat, hs.kept at' _ hsame hentry⟩
  · obtain rfl := List.mem_singleton.mp hx
    exact ⟨hs.notSlash, place, hs.locate, x, hf, hs.locate, hs.entry⟩

/-- All files can be read back exactly when those that go to one place have one text. -/
theorem readFile_iff (h : Kept root fs t) :
    (∀ f ∈ fs, t.readFile (Path.join root f.path) = .ok f.contents) ↔
      ∀ f ∈ fs, ∀ g ∈ fs, t.locate (Path.join root f.path) = t.locate (Path.join root g.path) →
        f.contents = g.contents := by
  have read : ∀ f ∈ fs, ∃ g ∈ fs,
      t.locate (Path.join root f.path) = t.locate (Path.join root g.path) ∧
        t.readFile (Path.join root f.path) = .ok g.contents := by
    intro f hf
    obtain ⟨hslash, place, hplace, g, hg, hgplace, hentry⟩ := h f hf
    exact ⟨g, hg, hplace.trans hgplace.symm, FileTree.readFile_of_entry hplace hslash hentry⟩
  constructor
  · intro hread f hf g hg hsame
    obtain ⟨-, place, hplace, x, -, -, hentry⟩ := h f hf
    have hf' := FileTree.readFile_of_entry hplace (h f hf).1 hentry
    have hg' := FileTree.readFile_of_entry (hsame.symm.trans hplace) (h g hg).1 hentry
    rw [hread f hf] at hf'
    rw [hread g hg] at hg'
    exact Except.ok.inj (hf'.trans hg'.symm)
  · intro hsame f hf
    obtain ⟨g, hg, hplace, hread⟩ := read f hf
    rw [hread, hsame f hf g hg hplace]

end Kept

end Provisioning
