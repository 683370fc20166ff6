import Provisioning.Proofs.Model.Documents

/-! # What is read is well-formed

The readers check the range of whole numbers and rebuild every dictionary, so a
declaration that comes out of them is well-formed.
-/

namespace Provisioning

open Json

namespace Json

variable {α : Type}

/-- Everything that the reader reads has the property. -/
def Yields (r : Reader α) (Q : α → Prop) : Prop := ∀ s t a, r s t = some a → Q a

theorem exists_of_mapM {α β : Type} {f : α → Option β} {as : List α} {bs : List β}
    (h : as.mapM f = some bs) : ∀ b ∈ bs, ∃ a, f a = some b := by
  induction as generalizing bs with
  | nil =>
    cases h
    exact fun _ hb => absurd hb List.not_mem_nil
  | cons a rest ih =>
    simp only [List.mapM_cons, Option.bind_eq_bind, Option.bind_eq_some_iff, Option.pure_def,
      Option.some.injEq] at h
    obtain ⟨b, hb, more, hmore, rfl⟩ := h
    exact List.forall_mem_cons.mpr ⟨⟨a, hb⟩, ih hmore⟩

theorem Yields.list {r : Reader α} {Q : α → Prop} (h : Yields r Q) :
    Yields (Reader.list r) fun items => ∀ a ∈ items, Q a := by
  intro s t items hread a ha
  cases t with
  | list trees =>
    simp only [Reader.list, Option.bind_eq_bind, Option.bind_eq_some_iff] at hread
    obtain ⟨inner, -, hitems⟩ := hread
    obtain ⟨t, ht⟩ := exists_of_mapM hitems a ha
    exact h inner t a ht
  | _ => cases hread

theorem Yields.dict {r : Reader α} {Q : α → Prop} (h : Yields r Q) :
    Yields (Reader.dict r) fun d => Dict.Sorted d ∧ ∀ e ∈ d, Q e.2 := by
  intro s t d hread
  cases t with
  | record entries =>
    simp only [Reader.dict, Option.bind_eq_bind, Option.bind_eq_some_iff, Option.pure_def,
      Option.some.injEq] at hread
    obtain ⟨inner, -, read, hentries, rfl⟩ := hread
    refine ⟨Dict.sorted_ofList read, fun e he => ?_⟩
    obtain ⟨entry, hentry⟩ := exists_of_mapM hentries e (Dict.mem_of_mem_ofList he)
    simp only [Reader.entry, Option.bind_eq_bind, Option.bind_eq_some_iff, Option.pure_def,
      Option.some.injEq] at hentry
    obtain ⟨key, -, a, ha, rfl⟩ := hentry
    exact h inner entry.2 a ha
  | _ => cases hread

theorem Yields.optional {r : Reader α} {Q : α → Prop} (h : Yields r Q) {f : Fields} {name : String}
    {default a : α} (hdefault : Q default) (hread : f.optional name default r = some a) : Q a := by
  rw [Fields.optional] at hread
  split at hread
  · cases hread
    exact hdefault
  · exact h _ _ _ hread

theorem Reader.yields_int64 : Yields Reader.int64 fun i => minInt64 ≤ i ∧ i ≤ maxInt64 := by
  intro s t i hread
  unfold Reader.int64 at hread
  split at hread
  · rename_i n
    split at hread
    · rename_i hrange
      cases hread
      exact hrange
    · cases hread
  · cases hread

end Json

namespace Constant

theorem yields_use {read : Reader Constant} (h : Yields read WellFormed) :
    Yields (readUse read) AnnotationUse.WellFormed := by
  intro s t a hread
  simp only [readUse, Option.bind_eq_bind, Option.bind_eq_some_iff, Option.pure_def,
    Option.some.injEq] at hread
  obtain ⟨f, -, type, -, values, hvalues, rfl⟩ := hread
  have hnone : Dict.Sorted ([] : Dict Constant) ∧ ∀ e ∈ ([] : Dict Constant), e.2.WellFormed :=
    ⟨List.Pairwise.nil, fun _ he => absurd he List.not_mem_nil⟩
  exact h.dict.optional hnone hvalues

theorem yields_within (steps : Nat) : Yields (readWithin steps) WellFormed := by
  induction steps with
  | zero => exact fun s t c hread => by cases hread
  | succ steps ih =>
    intro s t c hread
    simp only [readWithin, Option.bind_eq_bind, Option.bind_eq_some_iff] at hread
    obtain ⟨⟨kind, w, inner⟩, -, hread⟩ := hread
    cases kind with
    | bool =>
      obtain ⟨b, -, rfl⟩ := Option.map_eq_some_iff.mp hread
      trivial
    | int =>
      obtain ⟨i, hi, rfl⟩ := Option.map_eq_some_iff.mp hread
      rw [WellFormed]
      exact Reader.yields_int64 inner w i hi
    | char =>
      obtain ⟨c, -, rfl⟩ := Option.map_eq_some_iff.mp hread
      trivial
    | string =>
      obtain ⟨text, -, rfl⟩ := Option.map_eq_some_iff.mp hread
      trivial
    | type =>
      obtain ⟨t, -, rfl⟩ := Option.map_eq_some_iff.mp hread
      trivial
    | enum =>
      simp only [readEnum, Option.bind_eq_bind, Option.bind_eq_some_iff, Option.pure_def,
        Option.some.injEq] at hread
      obtain ⟨f, -, type, -, constant, -, rfl⟩ := hread
      trivial
    | array =>
      obtain ⟨items, hitems, rfl⟩ := Option.map_eq_some_iff.mp hread
      rw [WellFormed, itemsWellFormed_iff]
      exact ih.list inner w items hitems
    | nested =>
      obtain ⟨a, ha, rfl⟩ := Option.map_eq_some_iff.mp hread
      rw [WellFormed, entriesWellFormed_iff]
      exact yields_use ih inner w a ha

theorem yields : Yields Constant.read WellFormed := fun s => yields_within s.levels s

end Constant

theorem AnnotationUse.yields : Yields AnnotationUse.read WellFormed :=
  Constant.yields_use Constant.yields

theorem Variable.yields : Yields Variable.read WellFormed := by
  intro s t x hread
  simp only [Variable.read, Option.bind_eq_bind, Option.bind_eq_some_iff, Option.pure_def,
    Option.some.injEq] at hread
  obtain ⟨f, -, name, -, type, -, modifiers, -, annotations, hannotations, rfl⟩ := hread
  exact AnnotationUse.yields.list.optional (fun _ ha => absurd ha List.not_mem_nil) hannotations

theorem Callable.yields : Yields Callable.read WellFormed := by
  intro s t m hread
  simp only [Callable.read, Option.bind_eq_bind, Option.bind_eq_some_iff, Option.pure_def,
    Option.some.injEq] at hread
  obtain ⟨f, -, name, -, modifiers, -, returns, -, parameters, hparameters, annotations,
    hannotations, rfl⟩ := hread
  exact ⟨Variable.yields.list.optional (fun _ hp => absurd hp List.not_mem_nil) hparameters,
    AnnotationUse.yields.list.optional (fun _ ha => absurd ha List.not_mem_nil) hannotations⟩

theorem Member.yields : Yields Member.read WellFormed := by
  intro s t m hread
  simp only [Member.read, Option.bind_eq_bind, Option.bind_eq_some_iff] at hread
  obtain ⟨-, -, ⟨kind, rest⟩, -, hread⟩ := hread
  dsimp only at hread
  split at hread
  · obtain ⟨m, hm, rfl⟩ := Option.map_eq_some_iff.mp hread
    exact Callable.yields _ _ m hm
  · split at hread
    · obtain ⟨m, hm, rfl⟩ := Option.map_eq_some_iff.mp hread
      exact Callable.yields _ _ m hm
    · split at hread
      · obtain ⟨x, hx, rfl⟩ := Option.map_eq_some_iff.mp hread
        exact Variable.yields _ _ x hx
      · cases hread

theorem TypeDecl.yields : Yields TypeDecl.read WellFormed := by
  intro s t d hread
  simp only [TypeDecl.read, Option.bind_eq_bind, Option.bind_eq_some_iff, Option.pure_def,
    Option.some.injEq] at hread
  obtain ⟨f, -, name, -, kind, -, modifiers, -, superclass, -, interfaces, -, annotations,
    hannotations, members, hmembers, rfl⟩ := hread
  exact ⟨AnnotationUse.yields.list.optional (fun _ ha => absurd ha List.not_mem_nil) hannotations,
    Member.yields.list.optional (fun _ hm => absurd hm List.not_mem_nil) hmembers⟩

theorem Universe.yields : Yields Universe.read WellFormed := by
  intro s t u hread
  simp only [Universe.read, Option.bind_eq_bind, Option.bind_eq_some_iff, Option.pure_def,
    Option.some.injEq] at hread
  obtain ⟨f, -, types, htypes, rounds, -, rfl⟩ := hread
  exact TypeDecl.yields.list.optional (fun _ hd => absurd hd List.not_mem_nil) htypes

end Provisioning
