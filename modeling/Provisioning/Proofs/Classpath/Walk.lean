import Mathlib.Logic.Relation
import Provisioning.Classpath
import Provisioning.Proofs.Model.Erasure

/-! # Walks over the hierarchy

The walk counts its steps, but the count never cuts it short: it meets the names
that a walk without a count would meet. That walk is given as a relation, and all
that is known of walks is proved along it. From one name it meets exactly the
names that are reached from there.
-/

namespace Provisioning

namespace Classpath

section Walks

variable {parents : String → List String} {queue met names : List String}

/-- The walk without a count of steps: from this queue, and after these names, it meets `names`. -/
inductive Walks (parents : String → List String) : List String → List String → List String → Prop
  | done (met : List String) : Walks parents [] met met.reverse
  | skip {name : String} {queue met names : List String} (h : name ∈ met)
      (rest : Walks parents queue met names) : Walks parents (name :: queue) met names
  | visit {name : String} {queue met names : List String} (h : name ∉ met)
      (rest : Walks parents (queue ++ parents name) (name :: met) names) :
      Walks parents (name :: queue) met names

namespace Walks

theorem unique {names' : List String} (h : Walks parents queue met names)
    (h' : Walks parents queue met names') : names = names' := by
  induction h with
  | done met =>
    cases h'
    rfl
  | skip hm _ ih =>
    cases h' with
    | skip _ rest => exact ih rest
    | visit hn => exact absurd hm hn
  | visit hn _ ih =>
    cases h' with
    | skip hm => exact absurd hm hn
    | visit _ rest => exact ih rest

theorem exists_append (h : Walks parents queue met names) :
    ∃ visited, names = met.reverse ++ visited ∧ visited.Nodup ∧ ∀ n ∈ visited, n ∉ met := by
  induction h with
  | done met => exact ⟨[], by simp⟩
  | skip _ _ ih => exact ih
  | @visit name queue met names hn _ ih =>
    obtain ⟨visited, rfl, hnodup, hmet⟩ := ih
    refine ⟨name :: visited, by simp, ?_, ?_⟩
    · exact List.nodup_cons.mpr ⟨fun hv => hmet name hv List.mem_cons_self, hnodup⟩
    · exact List.forall_mem_cons.mpr ⟨hn, fun n hv hm => hmet n hv (List.mem_cons_of_mem _ hm)⟩

theorem mem_of_met (h : Walks parents queue met names) {n : String} (hn : n ∈ met) : n ∈ names := by
  obtain ⟨visited, rfl, -⟩ := h.exists_append
  exact List.mem_append_left _ (List.mem_reverse.mpr hn)

/-- A name is met because it was met before, because it waits in the queue, or as the parent of a
name that is newly met. -/
theorem origin (h : Walks parents queue met names) {n : String} (hn : n ∈ names) :
    n ∈ met ∨ n ∈ queue ∨ ∃ m ∈ names, m ∉ met ∧ n ∈ parents m := by
  induction h with
  | done met => exact .inl (List.mem_reverse.mp hn)
  | skip _ _ ih =>
    rcases ih hn with hm | hq | hp
    · exact .inl hm
    · exact .inr (.inl (List.mem_cons_of_mem _ hq))
    · exact .inr (.inr hp)
  | @visit name queue met names hnew rest ih =>
    have hname : name ∈ names := rest.mem_of_met List.mem_cons_self
    rcases ih hn with hm | hq | ⟨m, hm, hfresh, hp⟩
    · rcases List.mem_cons.mp hm with rfl | hm
      · exact .inr (.inl List.mem_cons_self)
      · exact .inl hm
    · rcases List.mem_append.mp hq with hq | hp
      · exact .inr (.inl (List.mem_cons_of_mem _ hq))
      · exact .inr (.inr ⟨name, hname, hnew, hp⟩)
    · exact .inr (.inr ⟨m, hm, fun h => hfresh (List.mem_cons_of_mem _ h), hp⟩)

/-- A walk only depends on the parents of the names that it meets. -/
theorem congr {parents' : String → List String} (h : Walks parents queue met names)
    (hp : ∀ n ∈ names, n ∉ met → parents' n = parents n) : Walks parents' queue met names := by
  induction h with
  | done met => exact .done met
  | skip hm _ ih => exact .skip hm (ih hp)
  | @visit name queue met names hnew rest ih =>
    refine .visit hnew ?_
    rw [hp name (rest.mem_of_met List.mem_cons_self) hnew]
    exact ih fun n hn hfresh => hp n hn fun h => hfresh (List.mem_cons_of_mem _ h)

end Walks

abbrev Leads (parents : String → List String) : String → String → Prop :=
  Relation.ReflTransGen fun a b => b ∈ parents a

/-- What the met names lead to is met or comes from the queue, if their parents are. -/
theorem Leads.of_met (hclosed : ∀ m ∈ met, ∀ p ∈ parents m, p ∈ met ∨ p ∈ queue) {m n : String}
    (h : Leads parents m n) (hm : m ∈ met) : n ∈ met ∨ ∃ q ∈ queue, Leads parents q n := by
  induction h using Relation.ReflTransGen.head_induction_on with
  | refl => exact .inl hm
  | @head a b hab hbn ih =>
    rcases hclosed a hm b hab with hb | hb
    · exact ih hb
    · exact .inr ⟨b, hb, hbn⟩

theorem Walks.mem_iff (h : Walks parents queue met names)
    (hclosed : ∀ m ∈ met, ∀ p ∈ parents m, p ∈ met ∨ p ∈ queue) {n : String} :
    n ∈ names ↔ n ∈ met ∨ ∃ q ∈ queue, Leads parents q n := by
  induction h with
  | done met => simp
  | @skip name queue met names hm rest ih =>
    have hqueue : ∀ m ∈ met, ∀ p ∈ parents m, p ∈ met ∨ p ∈ queue := by
      intro m hm' p hp
      rcases hclosed m hm' p hp with hp | hp
      · exact .inl hp
      · rcases List.mem_cons.mp hp with rfl | hp
        · exact .inl hm
        · exact .inr hp
    simp only [ih hqueue, List.mem_cons, exists_eq_or_imp]
    constructor
    · rintro (hn | hn)
      · exact .inl hn
      · exact .inr (.inr hn)
    · rintro (hn | hn | hn)
      · exact .inl hn
      · exact Leads.of_met hqueue hn hm
      · exact .inr hn
  | @visit name queue met names hnew rest ih =>
    have hnext : ∀ m ∈ name :: met, ∀ p ∈ parents m, p ∈ name :: met ∨ p ∈ queue ++ parents name := by
      intro m hm p hp
      rcases List.mem_cons.mp hm with rfl | hm
      · exact .inr (List.mem_append_right _ hp)
      · rcases hclosed m hm p hp with hp | hp
        · exact .inl (List.mem_cons_of_mem _ hp)
        · rcases List.mem_cons.mp hp with rfl | hp
          · exact .inl List.mem_cons_self
          · exact .inr (List.mem_append_left _ hp)
    simp only [ih hnext, List.mem_cons, List.mem_append, exists_eq_or_imp]
    constructor
    · rintro ((rfl | hn) | ⟨q, hq, hqn⟩)
      · exact .inr (.inl .refl)
      · exact .inl hn
      · rcases hq with hq | hq
        · exact .inr (.inr ⟨q, hq, hqn⟩)
        · exact .inr (.inl (.head hq hqn))
    · rintro (hn | hn | ⟨q, hq, hqn⟩)
      · exact .inl (.inr hn)
      · rcases Relation.ReflTransGen.cases_head hn with rfl | ⟨p, hp, hpn⟩
        · exact .inl (.inl rfl)
        · exact .inr ⟨p, .inr hp, hpn⟩
      · exact .inr ⟨q, .inl hq, hqn⟩

end Walks

section Count

variable (cp : Classpath)

/-- The number of supertypes that the declarations not met so far name. -/
def pending (met : List String) : Nat :=
  ((cp.types.filter fun d => !met.contains d.key).flatMap TypeDecl.supertypes).length

theorem pending_nil : cp.pending [] = cp.edges := by
  simp [pending, edges]

theorem length_unmet_anti (types : List TypeDecl) {met met' : List String} (h : met ⊆ met') :
    ((types.filter fun d => !met'.contains d.key).flatMap TypeDecl.supertypes).length ≤
      ((types.filter fun d => !met.contains d.key).flatMap TypeDecl.supertypes).length := by
  refine List.Sublist.length_le (List.Sublist.flatMap ?_ _)
  refine List.monotone_filter_right _ ?_
  intro d hd
  rw [Bool.not_eq_true', List.contains_eq_mem, decide_eq_false_iff_not] at hd ⊢
  exact fun hm => hd (h hm)

theorem pending_anti {met met' : List String} (h : met ⊆ met') :
    cp.pending met' ≤ cp.pending met := length_unmet_anti cp.types h

variable {cp}

theorem key_of_find? {name : String} {d : TypeDecl} (h : cp.find? name = some d) :
    d.key = (TypeText.mk name).erasure := by
  rw [find?_eq] at h
  simpa using List.find?_some h

theorem mem_of_find? {name : String} {d : TypeDecl} (h : cp.find? name = some d) :
    d ∈ cp.types := by
  rw [find?_eq] at h
  exact List.mem_of_find?_eq_some h

theorem parents_add_pending_le {name : String} {met : List String} (he : TypeText.IsErased name)
    (h : name ∉ met) : (cp.parents name).length + cp.pending (name :: met) ≤ cp.pending met := by
  cases hf : cp.find? name with
  | none =>
    rw [parents, hf, List.length_nil, Nat.zero_add]
    exact cp.pending_anti (List.subset_cons_self name met)
  | some d =>
    have hkey : d.key = name := (key_of_find? hf).trans he
    obtain ⟨-, before, after, htypes, -⟩ :=
      List.find?_eq_some_iff_append.mp ((cp.find?_eq name).symm.trans hf)
    have hbefore := length_unmet_anti before (List.subset_cons_self name met)
    have hafter := length_unmet_anti after (List.subset_cons_self name met)
    simp only [parents, hf, pending, htypes, List.filter_append, List.filter_cons, hkey, h,
      List.contains_eq_mem, List.mem_cons_self, decide_true, decide_false, Bool.not_true,
      Bool.not_false, if_true, if_false, Bool.false_eq_true, List.flatMap_append, List.flatMap_cons,
      List.length_append, List.length_map]
    simp only [List.contains_eq_mem] at hbefore hafter
    omega

theorem isErased_of_mem_parents {name p : String} (h : p ∈ cp.parents name) :
    TypeText.IsErased p := by
  unfold parents at h
  split at h
  · obtain ⟨t, -, rfl⟩ := List.mem_map.mp h
    exact t.isErased_erasure
  · exact absurd h List.not_mem_nil

/-- With a step for every name in the queue and for every pending supertype the walk is complete. -/
theorem walks_walk {steps : Nat} {queue met : List String} (he : ∀ n ∈ queue, TypeText.IsErased n)
    (hs : queue.length + cp.pending met ≤ steps) :
    Walks cp.parents queue met (walk cp.parents steps queue met) := by
  induction steps generalizing queue met with
  | zero =>
    have hqueue : queue = [] := List.eq_nil_of_length_eq_zero (by omega)
    subst hqueue
    exact .done met
  | succ steps ih =>
    cases queue with
    | nil => exact .done met
    | cons name queue =>
      obtain ⟨hname, hqueue⟩ := List.forall_mem_cons.mp he
      rw [List.length_cons] at hs
      by_cases hm : name ∈ met
      · have hwalk : walk cp.parents (steps + 1) (name :: queue) met =
            walk cp.parents steps queue met := by simp [walk, hm]
        rw [hwalk]
        exact .skip hm (ih hqueue (by omega))
      · have hwalk : walk cp.parents (steps + 1) (name :: queue) met =
            walk cp.parents steps (queue ++ cp.parents name) (name :: met) := by simp [walk, hm]
        have hpending := @parents_add_pending_le cp name met hname hm
        rw [hwalk]
        refine .visit hm (ih ?_ ?_)
        · intro n hn
          rcases List.mem_append.mp hn with hn | hn
          · exact hqueue n hn
          · exact isErased_of_mem_parents hn
        · rw [List.length_append]
          omega

/-- The walk from an erased name is complete: its count of steps never cuts it short. -/
theorem walks_lineage (cp : Classpath) {name : String} (he : TypeText.IsErased name) :
    Walks cp.parents [name] [] (cp.lineage name) := by
  refine walks_walk (by simpa using he) ?_
  rw [pending_nil, List.length_singleton, Nat.add_comm]

theorem mem_lineage_iff {name n : String} (he : TypeText.IsErased name) :
    n ∈ cp.lineage name ↔ Leads cp.parents name n := by
  rw [(cp.walks_lineage he).mem_iff (by simp)]
  simp

theorem isSubtype_eq_true_iff (cp : Classpath) (a b : TypeText) : cp.isSubtype a b = true ↔
    a.same b = true ∨ (a.isPrimitive = false ∧ b.isPrimitive = false ∧ a.isVoid = false ∧
      (b.erasure = TypeText.object ∨ Leads cp.parents a.erasure b.erasure)) := by
  rw [← mem_lineage_iff a.isErased_erasure, ← List.contains_iff_mem]
  unfold isSubtype
  cases a.same b <;> cases a.isPrimitive <;> cases b.isPrimitive <;> cases a.isVoid <;>
    by_cases ho : b.erasure = TypeText.object <;> simp [ho]

theorem exists_ancestry (cp : Classpath) (d : TypeDecl) : ∃ visited,
    Walks cp.parents (d.supertypes.map TypeText.erasure) [d.key] (d.key :: visited) ∧
      cp.ancestry d = d :: visited.filterMap cp.find? := by
  have he : ∀ n ∈ d.supertypes.map TypeText.erasure, TypeText.IsErased n := by
    intro n hn
    obtain ⟨t, -, rfl⟩ := List.mem_map.mp hn
    exact t.isErased_erasure
  have hsteps : (d.supertypes.map TypeText.erasure).length + cp.pending [d.key] ≤
      cp.edges + d.supertypes.length + 1 := by
    have hpending := cp.pending_anti (List.nil_subset [d.key])
    rw [pending_nil] at hpending
    rw [List.length_map]
    omega
  have hwalk := walks_walk he hsteps
  obtain ⟨visited, hnames, -⟩ := hwalk.exists_append
  refine ⟨visited, ?_, ?_⟩
  · rw [hnames] at hwalk
    exact hwalk
  · simp [ancestry, hnames]

end Count

end Classpath

end Provisioning
