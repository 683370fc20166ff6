import Mathlib.Data.List.Nodup
import Provisioning.Proofs.Classpath.Walk
import Provisioning.Proofs.Round.Rendering

/-! # Discovery on a classpath

When no look-up crashes, the containers of a round are decided by the erasures of
its roots alone: each marked declaration that some root refers to is discovered
once, however often and in whatever spelling it is a root.
-/

namespace Provisioning

/-- Two spellings of one root, which differ in type arguments or outer white space at most. -/
def SameRoot (r s : String) : Prop := (TypeText.mk r).erasure = (TypeText.mk s).erasure

namespace Classpath

variable {cp : Classpath}

theorem find?_congr {r s : String} (h : SameRoot r s) : cp.find? r = cp.find? s := by
  rw [find?_eq, find?_eq, h]

theorem eq_of_key_eq {r s : String} {d e : TypeDecl} (hd : cp.find? r = some d)
    (he : cp.find? s = some e) (h : d.key = e.key) : d = e := by
  have hrs : SameRoot r s := (key_of_find? hd).symm.trans (h.trans (key_of_find? he))
  rw [find?_congr hrs, he] at hd
  exact (Option.some.inj hd).symm

def Known (cp : Classpath) (roots : List String) : Prop := ∀ r ∈ roots, ∃ d, cp.find? r = some d

theorem forall₂_find?_iff {roots : List String} {ds : List TypeDecl} :
    List.Forall₂ (fun r d => cp.find? r = some d) roots ds ↔
      cp.Known roots ∧ ds = roots.filterMap cp.find? := by
  induction roots generalizing ds with
  | nil => cases ds <;> simp [Known]
  | cons r rest ih =>
    constructor
    · intro h
      cases h with
      | cons hr hrest =>
        obtain ⟨hk, rfl⟩ := ih.mp hrest
        refine ⟨?_, by simp [hr]⟩
        intro s hs
        rcases List.mem_cons.mp hs with rfl | hs
        · exact ⟨_, hr⟩
        · exact hk s hs
    · rintro ⟨hk, rfl⟩
      obtain ⟨d, hd⟩ := hk r List.mem_cons_self
      rw [List.filterMap_cons_some hd]
      exact .cons hd (ih.mpr ⟨fun s hs => hk s (List.mem_cons_of_mem r hs), rfl⟩)

end Classpath

namespace Env

section Marked

variable (env : Env)

theorem mem_of_mem_marked {seen : List String} {ds : List TypeDecl} {d : TypeDecl}
    (h : d ∈ env.marked seen ds) :
    d ∈ ds ∧ d.isAnnotated env.markers.module = true ∧ d.key ∉ seen := by
  induction ds generalizing seen with
  | nil => simp [marked] at h
  | cons e rest ih =>
    unfold marked at h
    split at h
    · rename_i he
      simp only [Bool.and_eq_true, Bool.not_eq_true', List.contains_eq_mem,
        decide_eq_false_iff_not] at he
      rcases List.mem_cons.mp h with rfl | h
      · exact ⟨List.mem_cons_self, he⟩
      · obtain ⟨hm, ha, hs⟩ := ih h
        exact ⟨List.mem_cons_of_mem e hm, ha, fun hk => hs (List.mem_cons_of_mem _ hk)⟩
    · obtain ⟨hm, ha, hs⟩ := ih h
      exact ⟨List.mem_cons_of_mem e hm, ha, hs⟩

/-- Every marked declaration is represented under its key. -/
theorem exists_mem_marked {seen : List String} {ds : List TypeDecl} {d : TypeDecl} (hd : d ∈ ds)
    (ha : d.isAnnotated env.markers.module = true) (hs : d.key ∉ seen) :
    ∃ e ∈ env.marked seen ds, e.key = d.key := by
  induction ds generalizing seen with
  | nil => cases hd
  | cons e rest ih =>
    unfold marked
    split
    · by_cases hk : e.key = d.key
      · exact ⟨e, List.mem_cons_self, hk⟩
      · have hrest : d ∈ rest := by
          rcases List.mem_cons.mp hd with rfl | hd
          · exact absurd rfl hk
          · exact hd
        have hs' : d.key ∉ e.key :: seen := by
          rw [List.mem_cons, not_or]
          exact ⟨fun h => hk h.symm, hs⟩
        obtain ⟨f, hf, hfk⟩ := ih hrest hs'
        exact ⟨f, List.mem_cons_of_mem e hf, hfk⟩
    · rename_i he
      rcases List.mem_cons.mp hd with rfl | hd
      · simp [ha, hs] at he
      · exact ih hd hs

theorem nodup_marked (seen : List String) (ds : List TypeDecl) :
    ((env.marked seen ds).map TypeDecl.key).Nodup := by
  induction ds generalizing seen with
  | nil => exact List.nodup_nil
  | cons e rest ih =>
    unfold marked
    split
    · refine List.nodup_cons.mpr ⟨?_, ih _⟩
      intro hm
      obtain ⟨d, hd, hk⟩ := List.mem_map.mp hm
      exact (env.mem_of_mem_marked hd).2.2 (hk ▸ List.mem_cons_self)
    · exact ih seen

end Marked

def ofClasspath (cp : Classpath) (markers : Markers) : Env := ⟨.ofClasspath cp, markers⟩

variable (cp : Classpath) (markers : Markers)

def containersAt (roots : List String) : List Container :=
  ((ofClasspath cp markers).marked [] (roots.filterMap cp.find?)).map (Container.of markers)

theorem root_ofClasspath (name : String) : (ofClasspath cp markers).root name =
    match cp.find? name with
    | some d => Trial.pure d
    | none => (Trial.fail (.of (.unknownType name))).within .discover := by
  have h : ((ofClasspath cp markers).symbols.lookup name).result = .ok (cp.find? name) := rfl
  unfold root
  rw [Trial.bind_of_ok _ h]
  cases cp.find? name <;> rfl

theorem root_eq_ok {name : String} {d : TypeDecl} :
    ((ofClasspath cp markers).root name).result = .ok d ↔ cp.find? name = some d := by
  rw [root_ofClasspath]
  cases cp.find? name with
  | none => simp [Trial.fail]
  | some e => simp

theorem events_root (name : String) : ((ofClasspath cp markers).root name).events = [] := by
  rw [root_ofClasspath]
  cases cp.find? name with
  | none => simp [Trial.fail]
  | some d => rfl

/-- Discovery succeeds exactly when all roots are known, and then it records nothing else. -/
theorem discover_eq_ok {roots : List String} {containers : List Container} :
    ((ofClasspath cp markers).discover roots).result = .ok containers ↔
      cp.Known roots ∧ containers = containersAt cp markers roots := by
  unfold discover
  rw [Trial.bind_eq_ok]
  simp only [Trial.forAll_eq_ok, root_eq_ok, Classpath.forall₂_find?_iff]
  constructor
  · rintro ⟨ds, ⟨hk, rfl⟩, h⟩
    cases h
    exact ⟨hk, rfl⟩
  · rintro ⟨hk, rfl⟩
    exact ⟨_, ⟨hk, rfl⟩, rfl⟩

theorem events_discover {roots : List String} (h : cp.Known roots) :
    ((ofClasspath cp markers).discover roots).events =
      [.discovered roots.length (containersAt cp markers roots).length] := by
  have hroots : (Trial.forAll (ofClasspath cp markers).root roots).result =
      .ok (roots.filterMap cp.find?) := by
    simpa only [Trial.forAll_eq_ok, root_eq_ok, Classpath.forall₂_find?_iff, and_true] using h
  unfold discover
  rw [Trial.bind_of_ok _ hroots, Trial.events_forAll hroots]
  have hnone : (roots.flatMap fun r => ((ofClasspath cp markers).root r).events) = [] := by
    simp [events_root]
  rw [hnone]
  rfl

variable {cp markers}

theorem mem_containersAt {roots : List String} {c : Container} :
    c ∈ containersAt cp markers roots ↔ ∃ r ∈ roots, ∃ d, cp.find? r = some d ∧
      d.isAnnotated markers.module = true ∧ c = Container.of markers d := by
  unfold containersAt
  rw [List.mem_map]
  constructor
  · rintro ⟨d, hd, rfl⟩
    obtain ⟨hm, ha, -⟩ := mem_of_mem_marked _ hd
    obtain ⟨r, hr, hf⟩ := List.mem_filterMap.mp hm
    exact ⟨r, hr, d, hf, ha, rfl⟩
  · rintro ⟨r, hr, d, hf, ha, rfl⟩
    have hm : d ∈ roots.filterMap cp.find? := List.mem_filterMap.mpr ⟨r, hr, hf⟩
    obtain ⟨e, he, hk⟩ :=
      exists_mem_marked (ofClasspath cp markers) hm ha List.not_mem_nil
    obtain ⟨s, -, hs⟩ := List.mem_filterMap.mp (mem_of_mem_marked _ he).1
    exact ⟨e, he, by rw [Classpath.eq_of_key_eq hs hf hk]⟩

theorem nodup_containersAt (roots : List String) : (containersAt cp markers roots).Nodup := by
  refine List.Nodup.of_map (fun c => c.decl.key) ?_
  have h := nodup_marked (ofClasspath cp markers) [] (roots.filterMap cp.find?)
  simpa [containersAt, Function.comp_def, Container.of] using h

end Env

end Provisioning
