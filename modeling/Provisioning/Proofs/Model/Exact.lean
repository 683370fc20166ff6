import Provisioning.Proofs.Json.Printing
import Provisioning.Proofs.Model.Documents

/-! # Numbers in documents

The only numbers in the documents of a well-formed declaration are whole numbers
of 64 bits, so their texts are exact.
-/

namespace Provisioning

open Json

namespace Json

theorem Value.itemsExact_iff {items : List Value} :
    ItemsExact items ↔ ∀ v ∈ items, v.HoldsExact := by
  induction items with
  | nil => simp [ItemsExact]
  | cons v rest ih => rw [ItemsExact, ih, List.forall_mem_cons]

theorem Value.fieldsExact_iff {fields : List (String × Value)} :
    FieldsExact fields ↔ ∀ e ∈ fields, e.2.HoldsExact := by
  induction fields with
  | nil => simp [FieldsExact]
  | cons e rest ih => rw [FieldsExact, ih, List.forall_mem_cons]

def Exactly (P : Value → Prop) : Prop := ∀ v, P v → v.HoldsExact

theorem Exactly.text (s : String) : Exactly (· = .text s) := by
  rintro _ rfl
  trivial

theorem Filled.exact {slots : List Slot} {fields : List (String × Value)} (h : Filled slots fields)
    (hslots : ∀ slot ∈ slots, Exactly slot.Holds) : ∀ e ∈ fields, e.2.HoldsExact := by
  induction h with
  | nil => exact fun _ he => absurd he List.not_mem_nil
  | present hv _ ih =>
    rw [List.forall_mem_cons] at hslots ⊢
    exact ⟨hslots.1 _ hv, ih hslots.2⟩
  | absent _ _ ih => exact ih (List.forall_mem_cons.mp hslots).2

theorem Exactly.record {slots : List Slot} (hslots : ∀ slot ∈ slots, Exactly slot.Holds) :
    Exactly (RecordOf slots) := by
  rintro _ ⟨fields, written, rfl, hperm, hfilled⟩
  rw [Value.HoldsExact, Value.fieldsExact_iff]
  exact fun e he => hfilled.exact hslots e (hperm.mem_iff.mp he)

theorem Exactly.list {α : Type} {E : α → Value → Prop} {items : List α}
    (h : ∀ a ∈ items, Exactly (E a)) : Exactly (ListOf E items) := by
  rintro _ ⟨vs, rfl, hvs⟩
  rw [Value.HoldsExact, Value.itemsExact_iff]
  induction hvs with
  | nil => exact fun _ hv => absurd hv List.not_mem_nil
  | cons hE _ ih =>
    rw [List.forall_mem_cons] at h ⊢
    exact ⟨h.1 _ hE, ih h.2⟩

theorem Exactly.dict {α : Type} {E : α → Value → Prop} {entries : List (String × α)}
    (h : ∀ e ∈ entries, Exactly (E e.2)) : Exactly (DictOf E entries) := by
  rintro _ ⟨fields, written, rfl, hperm, hwritten⟩
  rw [Value.HoldsExact, Value.fieldsExact_iff]
  suffices hall : ∀ f ∈ written, f.2.HoldsExact from
    fun f hf => hall f (hperm.mem_iff.mp hf)
  clear hperm
  induction hwritten with
  | nil => exact fun _ hf => absurd hf List.not_mem_nil
  | cons hE _ ih =>
    rw [List.forall_mem_cons] at h ⊢
    exact ⟨h.1 _ hE.2, ih h.2⟩

end Json

theorem TypeText.exactly (t : TypeText) : Exactly (· = t.toValue) := .text t.text

theorem Json.Value.exact_texts (items : List String) : (texts items).HoldsExact := by
  rw [texts, HoldsExact, itemsExact_iff]
  rintro _ hv
  obtain ⟨s, -, rfl⟩ := List.mem_map.mp hv
  trivial

theorem Modifiers.exactly (s : Modifiers) : Exactly (· = s.toValue) := by
  rintro _ rfl
  exact Value.exact_texts _

namespace Constant

theorem exactly_tagged {kind : Kind} {Holds : Value → Prop} (h : Exactly Holds) :
    Exactly (Tagged kind Holds) := by
  refine .record ?_
  simp only [List.forall_mem_cons]
  exact ⟨.text _, h, List.forall_mem_nil _⟩

theorem exactly_use {t : TypeText} {Holds : Value → Prop} {empty : Prop} (h : Exactly Holds) :
    Exactly (RecordOf (useSlots t Holds empty)) := by
  refine .record ?_
  simp only [useSlots, List.forall_mem_cons]
  exact ⟨t.exactly, h, List.forall_mem_nil _⟩

theorem exact_of_int64 {i : Int} (h : minInt64 ≤ i ∧ i ≤ maxInt64) : Exact i := by
  have hmax : maxInt64 ≤ (Numeral.maxSignificand : Int) := by decide
  exact ⟨h.1, Int.le_trans h.2 hmax⟩

mutual

theorem exactly (c : Constant) (hc : c.WellFormed) : Exactly c.Encodes := by
  match c with
  | .bool b =>
    rw [Encodes]
    exact exactly_tagged (by rintro _ rfl; trivial)
  | .int i =>
    rw [WellFormed] at hc
    rw [Encodes]
    exact exactly_tagged (by rintro _ rfl; exact exact_of_int64 hc)
  | .char c =>
    rw [Encodes]
    exact exactly_tagged (.text _)
  | .string s =>
    rw [Encodes]
    exact exactly_tagged (.text s)
  | .type t =>
    rw [Encodes]
    exact exactly_tagged t.exactly
  | .enum t constant =>
    rw [Encodes]
    refine exactly_tagged (.record ?_)
    simp only [enumSlots, List.forall_mem_cons]
    exact ⟨t.exactly, .text constant, List.forall_mem_nil _⟩
  | .array items =>
    rw [WellFormed] at hc
    rw [encodes_array]
    exact exactly_tagged (.list (exactly_items items hc))
  | .nested t values =>
    rw [WellFormed] at hc
    rw [encodes_nested]
    exact exactly_tagged (exactly_use (.dict (exactly_entries values hc.2)))

theorem exactly_items (items : List Constant) (h : ItemsWellFormed items) :
    ∀ c ∈ items, Exactly c.Encodes := by
  match items with
  | [] => exact fun _ hc => absurd hc List.not_mem_nil
  | c :: rest =>
    rw [ItemsWellFormed] at h
    exact List.forall_mem_cons.mpr ⟨exactly c h.1, exactly_items rest h.2⟩

theorem exactly_entries (entries : List (String × Constant)) (h : EntriesWellFormed entries) :
    ∀ e ∈ entries, Exactly e.2.Encodes := by
  match entries with
  | [] => exact fun _ he => absurd he List.not_mem_nil
  | (_, c) :: rest =>
    rw [EntriesWellFormed] at h
    exact List.forall_mem_cons.mpr ⟨exactly c h.1, exactly_entries rest h.2⟩

end

end Constant

theorem AnnotationUse.exactly {a : AnnotationUse} (ha : a.WellFormed) : Exactly a.Encodes :=
  Constant.exactly_use (.dict fun e he => Constant.exactly e.2 (ha.2 e he))

theorem Variable.exactly_slots {x : Variable} (hx : x.WellFormed) :
    ∀ slot ∈ x.slots, Exactly slot.Holds := by
  simp only [slots, List.forall_mem_cons]
  exact ⟨.text _, x.type.exactly, x.modifiers.exactly,
    .list fun a ha => AnnotationUse.exactly (hx a ha), List.forall_mem_nil _⟩

theorem Callable.exactly_slots {m : Callable} (hm : m.WellFormed) :
    ∀ slot ∈ m.slots, Exactly slot.Holds := by
  simp only [slots, List.forall_mem_cons]
  exact ⟨.text _, m.modifiers.exactly, m.returns.exactly,
    .list fun p hp => .record (Variable.exactly_slots (hm.1 p hp)),
    .list fun a ha => AnnotationUse.exactly (hm.2 a ha), List.forall_mem_nil _⟩

theorem Member.exactly {m : Member} (hm : m.WellFormed) : Exactly m.Encodes := by
  cases m with
  | method m => exact .record (List.forall_mem_cons.mpr ⟨.text _, Callable.exactly_slots hm⟩)
  | constructor m => exact .record (List.forall_mem_cons.mpr ⟨.text _, Callable.exactly_slots hm⟩)
  | field x => exact .record (List.forall_mem_cons.mpr ⟨.text _, Variable.exactly_slots hm⟩)

theorem TypeDecl.exactly {d : TypeDecl} (hd : d.WellFormed) : Exactly d.Encodes := by
  refine .record ?_
  simp only [slots, List.forall_mem_cons]
  refine ⟨d.name.exactly, .text _, d.modifiers.exactly, ?_, ?_,
    .list fun a ha => AnnotationUse.exactly (hd.1 a ha),
    .list fun m hm => Member.exactly (hd.2 m hm), List.forall_mem_nil _⟩
  · rintro _ rfl
    cases d.superclass <;> trivial
  · rintro _ rfl
    rw [Value.HoldsExact, Value.itemsExact_iff]
    intro v hv
    obtain ⟨t, -, rfl⟩ := List.mem_map.mp hv
    exact t.exactly _ rfl

theorem Universe.exactly {u : Universe} (hu : u.WellFormed) : Exactly u.Encodes := by
  refine .record ?_
  simp only [slots, List.forall_mem_cons]
  refine ⟨.list fun d hd => TypeDecl.exactly (hu d hd), ?_, List.forall_mem_nil _⟩
  rintro _ rfl
  cases u.rounds with
  | none => trivial
  | some rounds =>
    rw [Value.HoldsExact, Value.itemsExact_iff]
    intro v hv
    obtain ⟨round, -, rfl⟩ := List.mem_map.mp hv
    exact Value.exact_texts round

end Provisioning
