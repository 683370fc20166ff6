import Provisioning.Proofs.Json.Documents
import Provisioning.Universe

/-! # Documents of declarations

The values that stand for a declaration: what `toValue` gives, with the fields of
every record in any order, and without fields that hold their defaults.
-/

namespace Provisioning

open Json

/-! ## Constants -/

namespace Constant

def Tagged (kind : Kind) (Holds : Value → Prop) : Value → Prop :=
  RecordOf [.required "kind" (· = .text kind.keyword), .required "value" Holds]

def useSlots (type : TypeText) (Holds : Value → Prop) (empty : Prop) : List Slot :=
  [.required "type" (· = type.toValue), ⟨"values", Holds, empty⟩]

def enumSlots (type : TypeText) (constant : String) : List Slot :=
  [.required "type" (· = type.toValue), .required "constant" (· = .text constant)]

mutual

/-- The value is a document of the constant. -/
def Encodes : Constant → Value → Prop
  | .bool b => Tagged .bool (· = .bool b)
  | .int n => Tagged .int (· = .int n)
  | .char c => Tagged .char (· = .text (String.singleton c))
  | .string s => Tagged .string (· = .text s)
  | .type t => Tagged .type (· = t.toValue)
  | .enum t constant => Tagged .enum (RecordOf (enumSlots t constant))
  | .array items => Tagged .array fun v => ∃ vs, v = .list vs ∧ ItemsEncode items vs
  | .nested t values =>
    Tagged .nested (RecordOf (useSlots t (fun v => ∃ fields written,
      v = .record fields ∧ fields.Perm written ∧ EntriesEncode values written) (values = [])))

def ItemsEncode : List Constant → List Value → Prop
  | [], vs => vs = []
  | c :: rest, vs => ∃ v more, vs = v :: more ∧ Encodes c v ∧ ItemsEncode rest more

def EntriesEncode : List (String × Constant) → List (String × Value) → Prop
  | [], fields => fields = []
  | (name, c) :: rest, fields =>
    ∃ v more, fields = (name, v) :: more ∧ Encodes c v ∧ EntriesEncode rest more

end

theorem itemsEncode_iff {items : List Constant} {vs : List Value} :
    ItemsEncode items vs ↔ List.Forall₂ Encodes items vs := by
  induction items generalizing vs with
  | nil => simp [ItemsEncode]
  | cons c rest ih =>
    simp only [ItemsEncode, List.forall₂_cons_left_iff, ih]
    constructor
    · rintro ⟨v, more, rfl, hv, hmore⟩
      exact ⟨v, more, hv, hmore, rfl⟩
    · rintro ⟨v, more, hv, hmore, rfl⟩
      exact ⟨v, more, rfl, hv, hmore⟩

theorem entriesEncode_iff {entries : List (String × Constant)} {fields : List (String × Value)} :
    EntriesEncode entries fields ↔
      List.Forall₂ (fun e f => f.1 = e.1 ∧ e.2.Encodes f.2) entries fields := by
  induction entries generalizing fields with
  | nil => simp [EntriesEncode]
  | cons e rest ih =>
    simp only [EntriesEncode, List.forall₂_cons_left_iff, ih]
    constructor
    · rintro ⟨v, more, rfl, hv, hmore⟩
      exact ⟨(e.1, v), more, ⟨rfl, hv⟩, hmore, rfl⟩
    · rintro ⟨⟨_, v⟩, more, ⟨rfl, hv⟩, hmore, rfl⟩
      exact ⟨v, more, rfl, hv, hmore⟩

theorem encodes_array (items : List Constant) :
    Encodes (.array items) = Tagged .array (ListOf Encodes items) := by
  simp only [Encodes, itemsEncode_iff]
  rfl

theorem encodes_nested (t : TypeText) (values : List (String × Constant)) :
    Encodes (.nested t values) =
      Tagged .nested (RecordOf (useSlots t (DictOf Encodes values) (values = []))) := by
  simp only [Encodes, entriesEncode_iff]
  rfl

mutual

/-- Whole numbers have 64 bits, and the values of annotations are dictionaries. -/
def WellFormed : Constant → Prop
  | .bool _ => True
  | .int n => minInt64 ≤ n ∧ n ≤ maxInt64
  | .char _ => True
  | .string _ => True
  | .type _ => True
  | .enum _ _ => True
  | .array items => ItemsWellFormed items
  | .nested _ values => Dict.Sorted values ∧ EntriesWellFormed values

def ItemsWellFormed : List Constant → Prop
  | [] => True
  | c :: rest => WellFormed c ∧ ItemsWellFormed rest

def EntriesWellFormed : List (String × Constant) → Prop
  | [] => True
  | (_, c) :: rest => WellFormed c ∧ EntriesWellFormed rest

end

theorem itemsWellFormed_iff {items : List Constant} :
    ItemsWellFormed items ↔ ∀ c ∈ items, c.WellFormed := by
  induction items with
  | nil => simp [ItemsWellFormed]
  | cons c rest ih => simp [ItemsWellFormed, ih]

theorem entriesWellFormed_iff {entries : List (String × Constant)} :
    EntriesWellFormed entries ↔ ∀ e ∈ entries, e.2.WellFormed := by
  induction entries with
  | nil => simp [EntriesWellFormed]
  | cons e rest ih => rw [EntriesWellFormed, ih, List.forall_mem_cons]

end Constant

/-! ## Annotations, members and types -/

def AnnotationUse.Encodes (a : AnnotationUse) : Value → Prop :=
  RecordOf (Constant.useSlots a.type (DictOf Constant.Encodes a.values) (a.values = []))

def AnnotationUse.WellFormed (a : AnnotationUse) : Prop :=
  Dict.Sorted a.values ∧ ∀ e ∈ a.values, e.2.WellFormed

namespace Variable

def slots (x : Variable) : List Slot :=
  [.required "name" (· = .text x.name), .required "type" (· = x.type.toValue),
    ⟨"modifiers", (· = x.modifiers.toValue), x.modifiers = .empty⟩,
    ⟨"annotations", ListOf AnnotationUse.Encodes x.annotations, x.annotations = []⟩]

def Encodes (x : Variable) : Value → Prop := RecordOf x.slots

def WellFormed (x : Variable) : Prop := ∀ a ∈ x.annotations, a.WellFormed

end Variable

namespace Callable

def slots (m : Callable) : List Slot :=
  [⟨"name", (· = .text m.name), m.name = ""⟩,
    ⟨"modifiers", (· = m.modifiers.toValue), m.modifiers = .empty⟩,
    ⟨"return_type", (· = m.returns.toValue), m.returns = .void⟩,
    ⟨"parameters", ListOf Variable.Encodes m.parameters, m.parameters = []⟩,
    ⟨"annotations", ListOf AnnotationUse.Encodes m.annotations, m.annotations = []⟩]

def WellFormed (m : Callable) : Prop :=
  (∀ p ∈ m.parameters, p.WellFormed) ∧ ∀ a ∈ m.annotations, a.WellFormed

end Callable

namespace Member

def kindSlot (kind : String) : Slot := .required "kind" (· = .text kind)

def Encodes : Member → Value → Prop
  | .method m => RecordOf (kindSlot "method" :: m.slots)
  | .constructor m => RecordOf (kindSlot "constructor" :: m.slots)
  | .field x => RecordOf (kindSlot "field" :: x.slots)

def WellFormed : Member → Prop
  | .method m => m.WellFormed
  | .constructor m => m.WellFormed
  | .field x => x.WellFormed

end Member

namespace TypeDecl

def slots (d : TypeDecl) : List Slot :=
  [.required "name" (· = d.name.toValue),
    ⟨"kind", (· = .text d.kind.keyword), d.kind = .class⟩,
    ⟨"modifiers", (· = d.modifiers.toValue), d.modifiers = .empty⟩,
    ⟨"superclass", (· = .ofText? (d.superclass.map TypeText.text)), d.superclass = none⟩,
    ⟨"interfaces", (· = .list (d.interfaces.map TypeText.toValue)), d.interfaces = []⟩,
    ⟨"annotations", ListOf AnnotationUse.Encodes d.annotations, d.annotations = []⟩,
    ⟨"members", ListOf Member.Encodes d.members, d.members = []⟩]

def Encodes (d : TypeDecl) : Value → Prop := RecordOf d.slots

def WellFormed (d : TypeDecl) : Prop :=
  (∀ a ∈ d.annotations, a.WellFormed) ∧ ∀ m ∈ d.members, m.WellFormed

end TypeDecl

namespace Universe

def slots (u : Universe) : List Slot :=
  [⟨"types", ListOf TypeDecl.Encodes u.types, u.types = []⟩,
    ⟨"rounds", (· = match u.rounds with
      | some rounds => .list (rounds.map .texts)
      | none => .null), u.rounds = none⟩]

def Encodes (u : Universe) : Value → Prop := RecordOf u.slots

def WellFormed (u : Universe) : Prop := ∀ d ∈ u.types, d.WellFormed

end Universe

/-! ## The full documents -/

theorem Json.RecordOf.ofFields {slots : List Slot} {fields : List (String × Value)}
    (h : Filled slots fields) (hnodup : (slots.map Slot.name).Nodup) :
    RecordOf slots (.ofFields fields) :=
  ⟨Dict.ofList fields, fields, rfl, Dict.ofList_perm (h.sublist.nodup hnodup), h⟩

namespace Constant

theorem nodup_tag (kind : Kind) (Holds : Value → Prop) :
    ([Slot.required "kind" (· = .text kind.keyword), .required "value" Holds].map
      Slot.name).Nodup := by
  change ["kind", "value"].Nodup
  decide

theorem nodup_enumSlots (t : TypeText) (constant : String) :
    ((enumSlots t constant).map Slot.name).Nodup := by
  change ["type", "constant"].Nodup
  decide

theorem nodup_useSlots (t : TypeText) (Holds : Value → Prop) (empty : Prop) :
    ((useSlots t Holds empty).map Slot.name).Nodup := by
  change ["type", "values"].Nodup
  decide

theorem tagged_tag {kind : Kind} {Holds : Value → Prop} {v : Value} (h : Holds v) :
    Tagged kind Holds (tag kind v) :=
  .ofFields (.present rfl (.present h .nil)) (nodup_tag kind Holds)

mutual

theorem encodes_toValue (c : Constant) : c.Encodes c.toValue := by
  match c with
  | .bool b => exact tagged_tag rfl
  | .int n => exact tagged_tag rfl
  | .char c => exact tagged_tag rfl
  | .string s => exact tagged_tag rfl
  | .type t => exact tagged_tag rfl
  | .enum t constant =>
    exact tagged_tag (.ofFields (.present rfl (.present rfl .nil)) (nodup_enumSlots t constant))
  | .array items => exact tagged_tag ⟨_, rfl, itemsEncode_toValues items⟩
  | .nested t values =>
    have hvalues : ∃ fields written, Value.record (entriesToValues values) = .record fields ∧
        fields.Perm written ∧ EntriesEncode values written :=
      ⟨_, _, rfl, List.Perm.refl _, entriesEncode_toValues values⟩
    exact tagged_tag (.ofFields (.present rfl (.present hvalues .nil)) (nodup_useSlots _ _ _))

theorem itemsEncode_toValues (items : List Constant) : ItemsEncode items (itemsToValues items) := by
  match items with
  | [] => rfl
  | c :: rest => exact ⟨_, _, rfl, encodes_toValue c, itemsEncode_toValues rest⟩

theorem entriesEncode_toValues (entries : List (String × Constant)) :
    EntriesEncode entries (entriesToValues entries) := by
  match entries with
  | [] => rfl
  | (_, c) :: rest => exact ⟨_, _, rfl, encodes_toValue c, entriesEncode_toValues rest⟩

end

end Constant

theorem AnnotationUse.encodes_toValue (a : AnnotationUse) : a.Encodes a.toValue := by
  have hvalues : DictOf Constant.Encodes a.values (.record (Constant.entriesToValues a.values)) :=
    ⟨_, _, rfl, List.Perm.refl _,
      Constant.entriesEncode_iff.mp (Constant.entriesEncode_toValues a.values)⟩
  exact .ofFields (.present rfl (.present hvalues .nil)) (Constant.nodup_useSlots _ _ _)

namespace Variable

theorem nodup_slots (x : Variable) : (x.slots.map Slot.name).Nodup := by
  change ["name", "type", "modifiers", "annotations"].Nodup
  decide

theorem filled_fields (x : Variable) : Filled x.slots x.fields :=
  .present rfl (.present rfl (.present rfl
    (.present (.of_map AnnotationUse.encodes_toValue x.annotations) .nil)))

theorem encodes_toValue (x : Variable) : x.Encodes x.toValue :=
  .ofFields x.filled_fields x.nodup_slots

end Variable

namespace Callable

theorem nodup_slots (m : Callable) : (m.slots.map Slot.name).Nodup := by
  change ["name", "modifiers", "return_type", "parameters", "annotations"].Nodup
  decide

theorem filled_fields (m : Callable) : Filled m.slots m.fields :=
  .present rfl (.present rfl (.present rfl
    (.present (.of_map Variable.encodes_toValue m.parameters)
      (.present (.of_map AnnotationUse.encodes_toValue m.annotations) .nil))))

end Callable

namespace Member

theorem nodup_callable (kind : String) (m : Callable) :
    ((kindSlot kind :: m.slots).map Slot.name).Nodup := by
  change ["kind", "name", "modifiers", "return_type", "parameters", "annotations"].Nodup
  decide

theorem nodup_variable (kind : String) (x : Variable) :
    ((kindSlot kind :: x.slots).map Slot.name).Nodup := by
  change ["kind", "name", "type", "modifiers", "annotations"].Nodup
  decide

theorem encodes_toValue (m : Member) : m.Encodes m.toValue := by
  cases m with
  | method m => exact .ofFields (.present rfl m.filled_fields) (nodup_callable _ m)
  | constructor m => exact .ofFields (.present rfl m.filled_fields) (nodup_callable _ m)
  | field x => exact .ofFields (.present rfl x.filled_fields) (nodup_variable _ x)

end Member

namespace TypeDecl

theorem nodup_slots (d : TypeDecl) : (d.slots.map Slot.name).Nodup := by
  change ["name", "kind", "modifiers", "superclass", "interfaces", "annotations", "members"].Nodup
  decide

theorem encodes_toValue (d : TypeDecl) : d.Encodes d.toValue := by
  have hannotations := ListOf.of_map AnnotationUse.encodes_toValue d.annotations
  have hmembers := ListOf.of_map Member.encodes_toValue d.members
  exact .ofFields (.present rfl (.present rfl (.present rfl (.present rfl (.present rfl
    (.present hannotations (.present hmembers .nil))))))) d.nodup_slots

end TypeDecl

namespace Universe

theorem nodup_slots (u : Universe) : (u.slots.map Slot.name).Nodup := by
  change ["types", "rounds"].Nodup
  decide

theorem encodes_toValue (u : Universe) : u.Encodes u.toValue := by
  have htypes := ListOf.of_map TypeDecl.encodes_toValue u.types
  exact .ofFields (.present htypes (.present rfl .nil)) u.nodup_slots

end Universe

end Provisioning
