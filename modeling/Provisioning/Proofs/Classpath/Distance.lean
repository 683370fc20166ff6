import Provisioning.Proofs.Classpath.Walk

/-! # Distances in a walk

The queue of a walk holds the names of one level and behind them those of the next
level. So a walk from one name meets the names in the order of their distance: no
name is met before one that is fewer steps away.
-/

namespace Provisioning.Classpath

variable {parents : String → List String} {source : String}

inductive Climbs (parents : String → List String) (source : String) : Nat → String → Prop
  | start : Climbs parents source 0 source
  | up {n : Nat} {a b : String} (h : Climbs parents source n a) (hb : b ∈ parents a) :
      Climbs parents source (n + 1) b

theorem Climbs.eq_source {b : String} (h : Climbs parents source 0 b) : b = source := by
  cases h
  rfl

theorem Climbs.trans {n k : Nat} {a b : String} (h : Climbs parents source n a)
    (h' : Climbs parents a k b) : Climbs parents source (n + k) b := by
  induction h' with
  | start => exact h
  | up _ hb ih => exact .up ih hb

theorem leads_iff_exists_climbs {b : String} :
    Leads parents source b ↔ ∃ n, Climbs parents source n b := by
  constructor
  · intro h
    induction h with
    | refl => exact ⟨0, .start⟩
    | tail _ hb ih =>
      obtain ⟨n, hn⟩ := ih
      exact ⟨n + 1, .up hn hb⟩
  · rintro ⟨n, h⟩
    induction h with
    | start => exact .refl
    | up _ hb ih => exact .tail ih hb

/-- However the second name is reached, the first one is reached in no more steps. -/
def NoFarther (parents : String → List String) (source a b : String) : Prop :=
  ∀ n, Climbs parents source n b → ∃ k ≤ n, Climbs parents source k a

theorem NoFarther.refl (a : String) : NoFarther parents source a a := fun n h => ⟨n, Nat.le_refl n, h⟩

/-- A walk in the middle of level `n`: the rest of the level waits in `here`, what was found of the
next one in `next`. -/
structure Level (parents : String → List String) (source : String) (n : Nat)
    (met here next : List String) : Prop where
  nearer : ∀ k < n, ∀ x, Climbs parents source k x → x ∈ met
  level : ∀ x, Climbs parents source n x → x ∈ met ∨ x ∈ here
  here_climbs : ∀ x ∈ here, Climbs parents source n x
  next_climbs : ∀ x ∈ next, Climbs parents source (n + 1) x
  parents_found : ∀ m ∈ met, ∀ p ∈ parents m, p ∈ met ∨ p ∈ here ∨ p ∈ next

namespace Level

variable {n : Nat} {name : String} {met here next : List String}

theorem start : Level parents source 0 [] [source] [] where
  nearer _ hk := absurd hk (Nat.not_lt_zero _)
  level x h := .inr (List.mem_singleton.mpr h.eq_source)
  here_climbs x hx := by
    obtain rfl := List.mem_singleton.mp hx
    exact .start
  next_climbs _ h := absurd h List.not_mem_nil
  parents_found _ h := absurd h List.not_mem_nil

theorem advance (h : Level parents source n met [] next) :
    Level parents source (n + 1) met next [] where
  nearer k hk x hx := by
    rcases Nat.lt_succ_iff_lt_or_eq.mp hk with hk | rfl
    · exact h.nearer k hk x hx
    · exact (h.level x hx).resolve_right List.not_mem_nil
  level x hx := by
    cases hx with
    | up ha hb =>
      have hm := (h.level _ ha).resolve_right List.not_mem_nil
      rcases h.parents_found _ hm x hb with hx | hx | hx
      · exact .inl hx
      · exact absurd hx List.not_mem_nil
      · exact .inr hx
  here_climbs := h.next_climbs
  next_climbs _ hx := absurd hx List.not_mem_nil
  parents_found m hm p hp := by
    rcases h.parents_found m hm p hp with hx | hx | hx
    · exact .inl hx
    · exact absurd hx List.not_mem_nil
    · exact .inr (.inl hx)

theorem skip (h : Level parents source n met (name :: here) next) (hm : name ∈ met) :
    Level parents source n met here next where
  nearer := h.nearer
  level x hx := by
    rcases h.level x hx with hx | hx
    · exact .inl hx
    · rcases List.mem_cons.mp hx with rfl | hx
      · exact .inl hm
      · exact .inr hx
  here_climbs x hx := h.here_climbs x (List.mem_cons_of_mem name hx)
  next_climbs := h.next_climbs
  parents_found m hm' p hp := by
    rcases h.parents_found m hm' p hp with hx | hx | hx
    · exact .inl hx
    · rcases List.mem_cons.mp hx with rfl | hx
      · exact .inl hm
      · exact .inr (.inl hx)
    · exact .inr (.inr hx)

theorem visit (h : Level parents source n met (name :: here) next) :
    Level parents source n (name :: met) here (next ++ parents name) where
  nearer k hk x hx := List.mem_cons_of_mem name (h.nearer k hk x hx)
  level x hx := by
    rcases h.level x hx with hx | hx
    · exact .inl (List.mem_cons_of_mem name hx)
    · rcases List.mem_cons.mp hx with rfl | hx
      · exact .inl List.mem_cons_self
      · exact .inr hx
  here_climbs x hx := h.here_climbs x (List.mem_cons_of_mem name hx)
  next_climbs x hx := by
    rcases List.mem_append.mp hx with hx | hx
    · exact h.next_climbs x hx
    · exact .up (h.here_climbs name List.mem_cons_self) hx
  parents_found m hm p hp := by
    rcases List.mem_cons.mp hm with rfl | hm
    · exact .inr (.inr (List.mem_append_right next hp))
    · rcases h.parents_found m hm p hp with hx | hx | hx
      · exact .inl (List.mem_cons_of_mem name hx)
      · rcases List.mem_cons.mp hx with rfl | hx
        · exact .inl List.mem_cons_self
        · exact .inr (.inl hx)
      · exact .inr (.inr (List.mem_append_left _ hx))

/-- The first name of the queue stands in the level that the walk is in, or in the one that it is
about to enter. -/
theorem exists_head {queue : List String} (h : Level parents source n met here next)
    (hq : name :: queue = here ++ next) : ∃ n' here' next', queue = here' ++ next' ∧
      Level parents source n' met (name :: here') next' := by
  cases here with
  | nil =>
    refine ⟨n + 1, queue, [], (List.append_nil queue).symm, ?_⟩
    rw [hq]
    exact h.advance
  | cons first here =>
    obtain ⟨rfl, rfl⟩ := List.cons.inj hq
    exact ⟨n, here, next, rfl, h⟩

end Level

/-- From the middle of a level on, a walk meets what is left in the order of the distances. -/
theorem Walks.sorted_of_level {queue met names : List String} (h : Walks parents queue met names)
    {n : Nat} {here next : List String} (hq : queue = here ++ next)
    (hl : Level parents source n met here next) :
    ∃ visited, names = met.reverse ++ visited ∧ (∀ v ∈ visited, v ∉ met) ∧
      visited.Pairwise (NoFarther parents source) := by
  induction h generalizing n here next with
  | done met => exact ⟨[], (List.append_nil _).symm, fun _ h => absurd h List.not_mem_nil, .nil⟩
  | skip hm _ ih =>
    obtain ⟨n', here', next', hq', hl'⟩ := hl.exists_head hq
    exact ih hq' (hl'.skip hm)
  | @visit name queue met names hm _ ih =>
    obtain ⟨n', here', next', hq', hl'⟩ := hl.exists_head hq
    obtain ⟨visited, rfl, hfresh, hsorted⟩ := ih (by rw [hq', List.append_assoc]) hl'.visit
    refine ⟨name :: visited, by simp, ?_, List.pairwise_cons.mpr ⟨?_, hsorted⟩⟩
    · exact List.forall_mem_cons.mpr ⟨hm, fun v hv h => hfresh v hv (List.mem_cons_of_mem _ h)⟩
    · intro v hv k hk
      -- what is nearer than this level was met before
      have hle : n' ≤ k := by
        by_contra hlt
        have hmet := hl'.nearer k (by omega) v hk
        exact hfresh v hv (List.mem_cons_of_mem name hmet)
      exact ⟨n', hle, hl'.here_climbs name List.mem_cons_self⟩

theorem Walks.sorted {names : List String} (h : Walks parents [source] [] names) :
    names.Pairwise (NoFarther parents source) := by
  obtain ⟨visited, rfl, -, hsorted⟩ := h.sorted_of_level (List.append_nil _).symm Level.start
  exact hsorted

end Provisioning.Classpath
