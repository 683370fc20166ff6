import Mathlib.Data.List.Forall2
import Mathlib.Data.List.Nodup
import Mathlib.Data.List.Perm.Basic
import Mathlib.Data.Option.Basic
import Provisioning.Json.Reader

/-! # What readers make of values

A reader is described by the values that it understands: `Reads n r P a` says
that `r` reads every value with the property `P` as `a`, as long as the value is
nested at most `n` deep and not deeper than the levels that are left. Records are
described by slots, so that the order of the fields and the fields that are left
out stay open.
-/

namespace Provisioning.Json

namespace Value

mutual

def depth : Value → Nat
  | .null => 0
  | .bool _ => 0
  | .number _ => 0
  | .text _ => 0
  | .list items => itemsDepth items + 1
  | .record fields => fieldsDepth fields + 1

def itemsDepth : List Value → Nat
  | [] => 0
  | v :: rest => max (depth v) (itemsDepth rest)

def fieldsDepth : List (String × Value) → Nat
  | [] => 0
  | (_, v) :: rest => max (depth v) (fieldsDepth rest)

end

@[simp] theorem depth_list (items : List Value) : (list items).depth = itemsDepth items + 1 := by
  rw [depth]

@[simp] theorem depth_record (fields : List (String × Value)) :
    (record fields).depth = fieldsDepth fields + 1 := by
  rw [depth]

theorem itemsDepth_le_iff {items : List Value} {n : Nat} :
    itemsDepth items ≤ n ↔ ∀ v ∈ items, v.depth ≤ n := by
  induction items with
  | nil => simp [itemsDepth]
  | cons v rest ih => simp only [itemsDepth, Nat.max_le, ih, List.forall_mem_cons]

theorem fieldsDepth_le_iff {fields : List (String × Value)} {n : Nat} :
    fieldsDepth fields ≤ n ↔ ∀ e ∈ fields, e.2.depth ≤ n := by
  induction fields with
  | nil => simp [fieldsDepth]
  | cons e rest ih => simp only [fieldsDepth, Nat.max_le, ih, List.forall_mem_cons]

theorem listToTrees_eq_map (items : List Value) : listToTrees items = items.map toTree := by
  induction items with
  | nil => rfl
  | cons v rest ih => rw [listToTrees, ih, List.map_cons]

theorem fieldsToTrees_eq_map (fields : List (String × Value)) :
    fieldsToTrees fields = fields.map fun e => (some e.1, e.2.toTree) := by
  induction fields with
  | nil => rfl
  | cons e rest ih => rw [fieldsToTrees, ih, List.map_cons]

@[simp] theorem toTree_list (items : List Value) :
    (list items).toTree = .list (items.map toTree) := by
  rw [toTree, listToTrees_eq_map]

@[simp] theorem toTree_record (fields : List (String × Value)) :
    (record fields).toTree = .record (fields.map fun e => (some e.1, e.2.toTree)) := by
  rw [toTree, fieldsToTrees_eq_map]

end Value

/-! ## Holding a value -/

namespace Tree

mutual

theorem exists_value? (levels : Nat) (v : Value) (h : v.depth ≤ levels) :
    ∃ w, value? levels v.toTree = some w := by
  match v with
  | .null => exact ⟨.null, by rw [Value.toTree, value?]⟩
  | .bool b => exact ⟨.bool b, by rw [Value.toTree, value?]⟩
  | .number n => exact ⟨.number n, by rw [Value.toTree, value?]; rfl⟩
  | .text s => exact ⟨.text s, by rw [Value.toTree, value?]; rfl⟩
  | .list items =>
    rw [Value.depth] at h
    cases levels with
    | zero => exact absurd h (Nat.not_succ_le_zero _)
    | succ levels =>
      obtain ⟨ws, hws⟩ := exists_values? levels items (Nat.le_of_succ_le_succ h)
      exact ⟨.list ws, by rw [Value.toTree, value?, hws]; rfl⟩
  | .record fields =>
    rw [Value.depth] at h
    cases levels with
    | zero => exact absurd h (Nat.not_succ_le_zero _)
    | succ levels =>
      obtain ⟨es, hes⟩ := exists_entries? levels fields (Nat.le_of_succ_le_succ h)
      exact ⟨.record (Dict.ofList es), by rw [Value.toTree, value?, hes]; rfl⟩

theorem exists_values? (levels : Nat) (items : List Value) (h : Value.itemsDepth items ≤ levels) :
    ∃ ws, values? levels (Value.listToTrees items) = some ws := by
  match items with
  | [] => exact ⟨[], by rw [Value.listToTrees, values?]⟩
  | v :: rest =>
    rw [Value.itemsDepth] at h
    obtain ⟨w, hw⟩ := exists_value? levels v (Nat.le_trans (Nat.le_max_left _ _) h)
    obtain ⟨ws, hws⟩ := exists_values? levels rest (Nat.le_trans (Nat.le_max_right _ _) h)
    exact ⟨w :: ws, by rw [Value.listToTrees, values?, hw, hws]; rfl⟩

theorem exists_entries? (levels : Nat) (fields : List (String × Value))
    (h : Value.fieldsDepth fields ≤ levels) :
    ∃ es, entries? levels (Value.fieldsToTrees fields) = some es := by
  match fields with
  | [] => exact ⟨[], by rw [Value.fieldsToTrees, entries?]⟩
  | (key, v) :: rest =>
    rw [Value.fieldsDepth] at h
    obtain ⟨w, hw⟩ := exists_value? levels v (Nat.le_trans (Nat.le_max_left _ _) h)
    obtain ⟨es, hes⟩ := exists_entries? levels rest (Nat.le_trans (Nat.le_max_right _ _) h)
    exact ⟨(key, w) :: es, by rw [Value.fieldsToTrees, entries?, hw, hes]; rfl⟩

end

theorem readable_toTree {v : Value} {levels : Nat} (h : v.depth ≤ levels) :
    readable levels v.toTree = true := by
  obtain ⟨w, hw⟩ := exists_value? levels v h
  rw [readable, hw]
  rfl

end Tree

/-! ## Readers of single values, lists and dictionaries -/

variable {α β : Type}

/-- The reader reads every value with the property that is nested at most `n` deep as `a`, in any part
of a document that has the levels for it. -/
def Reads (n : Nat) (r : Reader α) (P : Value → Prop) (a : α) : Prop :=
  ∀ s v, P v → v.depth ≤ n → v.depth ≤ s.levels → r s v.toTree = some a

def ListOf (E : α → Value → Prop) (items : List α) (v : Value) : Prop :=
  ∃ vs, v = .list vs ∧ List.Forall₂ E items vs

/-- The value is a record whose fields are related to the given entries, in any order. -/
def DictOf (E : α → Value → Prop) (entries : List (String × α)) (v : Value) : Prop :=
  ∃ fields written, v = .record fields ∧ fields.Perm written ∧
    List.Forall₂ (fun e f => f.1 = e.1 ∧ E e.2 f.2) entries written

theorem ListOf.of_map {E : α → Value → Prop} {f : α → Value}
    (h : ∀ a, E a (f a)) (items : List α) : ListOf E items (.list (items.map f)) := by
  refine ⟨items.map f, rfl, ?_⟩
  rw [List.forall₂_map_right_iff, List.forall₂_same]
  exact fun a _ => h a

theorem mapM_of_forall₂ {f : β → Option α} {R : α → β → Prop} {as : List α} {bs : List β}
    (h : List.Forall₂ R as bs) (hf : ∀ a ∈ as, ∀ b ∈ bs, R a b → f b = some a) :
    bs.mapM f = some as := by
  induction h with
  | nil => rfl
  | cons hab _ ih =>
    have hhead := hf _ List.mem_cons_self _ List.mem_cons_self hab
    have htail := ih fun a ha b hb =>
      hf a (List.mem_cons_of_mem _ ha) b (List.mem_cons_of_mem _ hb)
    simp [List.mapM_cons, hhead, htail]

namespace Reads

variable {n : Nat}

theorem map {r : Reader α} {P : Value → Prop} {a : α} (h : Reads n r P a) (f : α → β) :
    Reads n (fun s t => (r s t).map f) P (f a) := by
  intro s v hv hn hd
  exact congrArg (Option.map f) (h s v hv hn hd)

theorem of_imp {r : Reader α} {P Q : Value → Prop} {a : α} (h : Reads n r P a)
    (hQ : ∀ v, Q v → P v) : Reads n r Q a :=
  fun s v hv hn hd => h s v (hQ v hv) hn hd

theorem text (s : String) : Reads n Reader.text (· = .text s) s := by
  rintro _ _ rfl _ _
  rfl

theorem bool (b : Bool) : Reads n Reader.bool (· = .bool b) b := by
  rintro _ _ rfl _ _
  rfl

theorem int64 {i : Int} (h : minInt64 ≤ i ∧ i ≤ maxInt64) :
    Reads n Reader.int64 (· = .int i) i := by
  rintro _ _ rfl _ _
  exact if_pos h

theorem char (c : Char) : Reads n Reader.char (· = .text (String.singleton c)) c := by
  rintro _ _ rfl _ _
  simp [Value.toTree, Reader.char]

theorem word {meaning : String → Option α} {w : String} {a : α} (h : meaning w = some a) :
    Reads n (Reader.word meaning) (· = .text w) a := by
  rintro _ _ rfl _ _
  exact h

theorem nullable_none (r : Reader α) : Reads n (Reader.nullable r) (· = .null) none := by
  rintro _ _ rfl _ _
  rfl

theorem nullable_some {r : Reader α} {P : Value → Prop} {a : α} (h : Reads n r P a)
    (hP : ¬ P .null) : Reads n (Reader.nullable r) P (some a) := by
  intro s v hv hn hd
  have hread := congrArg (Option.map some) (h s v hv hn hd)
  cases v with
  | null => exact absurd hv hP
  | bool b => exact hread
  | number x => exact hread
  | text t => exact hread
  | list items => exact hread
  | record fields => exact hread

theorem list {r : Reader α} {E : α → Value → Prop} {items : List α}
    (h : ∀ a ∈ items, Reads n r (E a) a) : Reads n (Reader.list r) (ListOf E items) items := by
  rintro ⟨levels, held⟩ _ ⟨vs, rfl, hvs⟩ hn hd
  rw [Value.depth_list] at hn hd
  cases levels with
  | zero => exact absurd hd (Nat.not_succ_le_zero _)
  | succ levels =>
    have hdepth := Value.itemsDepth_le_iff.mp (Nat.le_of_succ_le_succ hd)
    have hbound := Value.itemsDepth_le_iff.mp (Nat.le_of_succ_le hn)
    have hread : (vs.map Value.toTree).mapM (r ⟨levels, held⟩) = some items := by
      rw [List.mapM_map]
      exact mapM_of_forall₂ hvs fun a ha v hv hE => h a ha _ v hE (hbound v hv) (hdepth v hv)
    rw [Value.toTree_list]
    exact hread

theorem list_map {r : Reader α} {f : α → Value} (h : ∀ a, Reads n r (· = f a) a) (items : List α) :
    Reads n (Reader.list r) (· = .list (items.map f)) items := by
  refine (list (E := fun a v => v = f a) fun a _ => h a).of_imp ?_
  rintro _ rfl
  exact ListOf.of_map (E := fun a v => v = f a) (fun _ => rfl) items

theorem dict {r : Reader α} {E : α → Value → Prop} {entries : Dict α}
    (hsorted : Dict.Sorted entries) (h : ∀ e ∈ entries, Reads n r (E e.2) e.2) :
    Reads n (Reader.dict r) (DictOf E entries) entries := by
  rintro ⟨levels, held⟩ _ ⟨fields, written, rfl, hperm, hwritten⟩ hn hd
  rw [Value.depth_record] at hn hd
  cases levels with
  | zero => exact absurd hd (Nat.not_succ_le_zero _)
  | succ levels =>
    have hdepth := Value.fieldsDepth_le_iff.mp (Nat.le_of_succ_le_succ hd)
    have hbound := Value.fieldsDepth_le_iff.mp (Nat.le_of_succ_le hn)
    obtain ⟨read, hfields, hback⟩ := List.perm_comp_forall₂ hperm hwritten.flip
    have hread : (fields.map fun f => (some f.1, f.2.toTree)).mapM
        (Reader.entry r ⟨levels, held⟩) = some read := by
      rw [List.mapM_map]
      refine mapM_of_forall₂ hfields.flip ?_
      rintro ⟨_, a⟩ ha ⟨key, v⟩ hv ⟨rfl, hE⟩
      have hvalue := h _ (hback.mem_iff.mp ha) ⟨levels, held⟩ v hE (hbound _ hv) (hdepth _ hv)
      simp [Reader.entry, hvalue]
    rw [Value.toTree_record]
    change (do let read ← _; return Dict.ofList read) = some entries
    rw [hread]
    exact congrArg some (Dict.ofList_of_perm hback hsorted)

theorem run {r : Reader α} {P : Value → Prop} {a : α} {v : Value} {text : String}
    (h : Reads v.depth r P a) (hv : P v) (hd : v.depth ≤ maxNesting)
    (htext : Tree.parse text = some v.toTree) : r.run text = some a := by
  rw [Reader.run, htext, Option.bind_some]
  exact h Scope.top v hv (Nat.le_refl _) hd

end Reads

/-! ## Records -/

structure Slot where
  name : String
  Holds : Value → Prop
  Omissible : Prop

def Slot.required (name : String) (Holds : Value → Prop) : Slot := ⟨name, Holds, False⟩

/-- The fields are those of the slots in their order, without some that may be left out. -/
inductive Filled : List Slot → List (String × Value) → Prop
  | nil : Filled [] []
  | present {slot : Slot} {slots : List Slot} {v : Value} {fields : List (String × Value)}
    (h : slot.Holds v) (hr : Filled slots fields) : Filled (slot :: slots) ((slot.name, v) :: fields)
  | absent {slot : Slot} {slots : List Slot} {fields : List (String × Value)}
    (h : slot.Omissible) (hr : Filled slots fields) : Filled (slot :: slots) fields

def RecordOf (slots : List Slot) (v : Value) : Prop :=
  ∃ fields written, v = .record fields ∧ fields.Perm written ∧ Filled slots written

theorem Filled.sublist {slots : List Slot} {fields : List (String × Value)}
    (h : Filled slots fields) : (Dict.keys fields).Sublist (slots.map Slot.name) := by
  induction h with
  | nil => exact List.Sublist.refl _
  | present _ _ ih => exact ih.cons_cons _
  | absent _ _ ih => exact ih.cons _

theorem Filled.slot {slots : List Slot} {fields : List (String × Value)} (h : Filled slots fields)
    (hnodup : (slots.map Slot.name).Nodup) : ∀ slot ∈ slots,
      (slot.Omissible ∧ slot.name ∉ Dict.keys fields) ∨
        ∃ v, slot.Holds v ∧ (slot.name, v) ∈ fields := by
  induction h with
  | nil => exact fun _ hm => absurd hm List.not_mem_nil
  | @present head slots v fields hv _ ih =>
    rw [List.map_cons, List.nodup_cons] at hnodup
    rintro slot hm
    rcases List.mem_cons.mp hm with rfl | hm
    · exact .inr ⟨v, hv, List.mem_cons_self⟩
    · have hne : slot.name ≠ head.name := fun heq => hnodup.1 (heq ▸ List.mem_map_of_mem hm)
      rcases ih hnodup.2 slot hm with ⟨homit, hfree⟩ | ⟨w, hw, hmem⟩
      · exact .inl ⟨homit, fun hkey => (List.mem_cons.mp hkey).elim hne hfree⟩
      · exact .inr ⟨w, hw, List.mem_cons_of_mem _ hmem⟩
  | @absent head slots fields homit hr ih =>
    rw [List.map_cons, List.nodup_cons] at hnodup
    rintro slot hm
    rcases List.mem_cons.mp hm with rfl | hm
    · exact .inl ⟨homit, fun hkey => hnodup.1 (hr.sublist.subset hkey)⟩
    · exact ih hnodup.2 slot hm

/-- What the fields that were asked of the record `v` say about a slot. -/
def Fields.Has (f : Fields) (v : Value) (slot : Slot) : Prop :=
  (slot.Omissible ∧ f.find slot.name = none) ∨
    ∃ w, slot.Holds w ∧ w.depth < v.depth ∧ w.depth ≤ f.scope.levels ∧
      f.find slot.name = some w.toTree

namespace Fields

variable {f : Fields} {v : Value} {n : Nat} {r : Reader α} {a : α}

theorem Has.required {name : String} {P : Value → Prop} (h : f.Has v (.required name P))
    (hn : v.depth ≤ n) (hr : Reads n r P a) : f.required name r = some a := by
  rcases h with ⟨habsurd, -⟩ | ⟨w, hw, hlt, hd, hfind⟩
  · exact habsurd.elim
  · rw [Fields.required, show f.find name = some w.toTree from hfind, Option.bind_some]
    exact hr f.scope w hw (Nat.le_trans (Nat.le_of_lt hlt) hn) hd

theorem Has.optional {slot : Slot} {default : α} (h : f.Has v slot) (hn : v.depth ≤ n)
    (hr : Reads n r slot.Holds a) (hdefault : slot.Omissible → a = default) :
    f.optional slot.name default r = some a := by
  rcases h with ⟨homit, hfind⟩ | ⟨w, hw, hlt, hd, hfind⟩
  · rw [Fields.optional, hfind, hdefault homit]
  · rw [Fields.optional, hfind]
    exact hr f.scope w hw (Nat.le_trans (Nat.le_of_lt hlt) hn) hd

theorem keyed?_toTrees (fields : List (String × Value)) :
    keyed? (fields.map fun e => (some e.1, e.2.toTree)) =
      some (fields.map fun e => (e.1, e.2.toTree)) := by
  induction fields with
  | nil => rfl
  | cons e rest ih =>
    rw [keyed?] at ih
    simp [keyed?, ih]

theorem distinct_of_nodup {entries : List (String × Tree)} (h : (entries.map Prod.fst).Nodup)
    (names : List String) : distinct names entries = true := by
  simp only [distinct, List.all_eq_true, decide_eq_true_eq]
  intro name _
  have hcount := List.nodup_iff_count_le_one.mp h name
  rw [List.count_eq_countP, List.countP_map, List.countP_eq_length_filter] at hcount
  exact hcount

theorem lookup_of_mem {entries : List (String × Tree)} (h : (entries.map Prod.fst).Nodup)
    {name : String} {t : Tree} (he : (name, t) ∈ entries) : lookup entries name = some t := by
  induction entries with
  | nil => cases he
  | cons e rest ih =>
    rw [List.map_cons, List.nodup_cons] at h
    rcases List.mem_cons.mp he with rfl | he
    · simp [lookup]
    · have hne : e.1 ≠ name := fun heq => h.1 (heq ▸ List.mem_map_of_mem (f := Prod.fst) he)
      rw [lookup, List.find?_cons_of_neg (by simpa using hne)]
      exact ih h.2 he

theorem lookup_of_not_mem {entries : List (String × Tree)} {name : String}
    (h : name ∉ entries.map Prod.fst) : lookup entries name = none := by
  rw [lookup, Option.map_eq_none_iff, List.find?_eq_none]
  intro e he heq
  exact h (decide_eq_true_eq.mp heq ▸ List.mem_map_of_mem he)

theorem exists_ofRecord? {slots : List Slot} {s : Scope} (hnodup : (slots.map Slot.name).Nodup)
    (h : RecordOf slots v) (hd : v.depth ≤ s.levels) :
    ∃ f, ofRecord? (slots.map Slot.name) s v.toTree = some f ∧ ∀ slot ∈ slots, f.Has v slot := by
  obtain ⟨fields, written, rfl, hperm, hfilled⟩ := h
  obtain ⟨levels, held⟩ := s
  rw [Value.depth_record] at hd
  cases levels with
  | zero => exact absurd hd (Nat.not_succ_le_zero _)
  | succ levels =>
    have hdepth := Value.fieldsDepth_le_iff.mp (Nat.le_of_succ_le_succ hd)
    have hinner := Value.fieldsDepth_le_iff.mp (Nat.le_refl (Value.fieldsDepth fields))
    have hkeys : (fields.map fun e => (e.1, e.2.toTree)).map Prod.fst = Dict.keys fields := by
      rw [List.map_map]
      rfl
    have hwritten : (Dict.keys written).Nodup := hfilled.sublist.nodup hnodup
    have hfields : (Dict.keys fields).Nodup := (hperm.map Prod.fst).nodup_iff.mpr hwritten
    refine ⟨⟨⟨levels, held⟩, lookup (fields.map fun e => (e.1, e.2.toTree))⟩, ?_, ?_⟩
    · rw [Value.toTree_record]
      simp [ofRecord?, Scope.enter?, keyed?_toTrees, distinct_of_nodup (hkeys ▸ hfields)]
    · intro slot hslot
      rcases hfilled.slot hnodup slot hslot with ⟨homit, hfree⟩ | ⟨w, hw, hmem⟩
      · refine .inl ⟨homit, lookup_of_not_mem ?_⟩
        rw [hkeys]
        exact fun hm => hfree ((hperm.map Prod.fst).mem_iff.mp hm)
      · have hmem := hperm.mem_iff.mpr hmem
        have hlt : w.depth < (Value.record fields).depth := by
          rw [Value.depth_record]
          exact Nat.lt_succ_of_le (hinner _ hmem)
        refine .inr ⟨w, hw, hlt, hdepth _ hmem, lookup_of_mem (hkeys ▸ hfields) ?_⟩
        exact List.mem_map.mpr ⟨(slot.name, w), hmem, rfl⟩

theorem exists_of? {slots : List Slot} {s : Scope} (hnodup : (slots.map Slot.name).Nodup)
    (h : RecordOf slots v) (hd : v.depth ≤ s.levels) :
    ∃ f, of? (slots.map Slot.name) s v.toTree = some f ∧ ∀ slot ∈ slots, f.Has v slot := by
  obtain ⟨f, hf, hhas⟩ := exists_ofRecord? hnodup h hd
  refine ⟨f, ?_, hhas⟩
  obtain ⟨fields, -, rfl, -⟩ := h
  rw [Value.toTree_record] at hf ⊢
  exact hf

end Fields

end Provisioning.Json
