import Provisioning.Config.Sections
import Provisioning.Proofs.Model.Documents

/-! # The effective configuration

Whether a section can be read is told from the values of its fields. Filling in
the defaults writes every field out, so the sections are read back as they were,
and filling in once more changes nothing.
-/

namespace Provisioning

open Json

/-! ## Values that can be read -/

namespace Json

namespace Value

def IsText (v : Value) : Prop := ∃ s, v = .text s

def IsListOf (P : Value → Prop) (v : Value) : Prop := ∃ items, v = .list items ∧ ∀ w ∈ items, P w

/-- The value has these entries for fields of the given names: a record in which none of the names
stands twice has its own, a list has its items in the order of the names. -/
inductive HasEntries (names : List String) : Value → Dict Value → Prop
  | record {entries : Dict Value} (once : ∀ name ∈ names, (entries.filter (·.1 = name)).length ≤ 1) :
    HasEntries names (.record entries) entries
  | list {items : List Value} (short : items.length ≤ names.length) :
    HasEntries names (.list items) (names.zip items)

/-- The value can be read as a section of fields that may all be left out. -/
def Decodes (fields : List (String × (Value → Prop))) (v : Value) : Prop :=
  v = .null ∨ ∃ entries, v.HasEntries (fields.map Prod.fst) entries ∧
    ∀ f ∈ fields, ∀ w, Dict.get? entries f.1 = some w → f.2 w

end Value

/-- Where `n` levels are left, the reader reads exactly the values with the property. -/
def Accepts {α : Type} (n : Nat) (r : Reader α) (P : Value → Prop) : Prop :=
  ∀ s v, n ≤ s.levels → ((∃ a, r s v.toTree = some a) ↔ P v)

section Accepts

variable {α β : Type} {n : Nat} {r : Reader α} {P : Value → Prop}

theorem accepts_text : Accepts n Reader.text Value.IsText := by
  intro s v _
  cases v <;> simp [Value.toTree, Reader.text, Value.IsText]

theorem Accepts.nullable (h : Accepts n r P) :
    Accepts n (Reader.nullable r) fun v => v = .null ∨ P v := by
  intro s v hs
  have hv := h s v hs
  cases v <;> simp_all [Value.toTree, Reader.nullable]

theorem exists_mapM_iff {f : β → Option α} {items : List β} :
    (∃ as, items.mapM f = some as) ↔ ∀ b ∈ items, ∃ a, f b = some a := by
  induction items with
  | nil => simp
  | cons b rest ih =>
    rw [List.forall_mem_cons, ← ih]
    simp [List.mapM_cons, Option.bind_eq_some_iff]

theorem Accepts.list (h : Accepts n r P) :
    Accepts (n + 1) (Reader.list r) (Value.IsListOf P) := by
  rintro ⟨_ | levels, held⟩ v hs
  · exact absurd hs (Nat.not_succ_le_zero n)
  cases v with
  | list items =>
    have hitems : (∃ as, (items.map Value.toTree).mapM (r ⟨levels, held⟩) = some as) ↔
        ∀ w ∈ items, P w := by
      rw [List.mapM_map, exists_mapM_iff]
      exact forall₂_congr fun w _ => h ⟨levels, held⟩ w (Nat.le_of_succ_le_succ hs)
    rw [Value.toTree_list]
    exact hitems.trans (by simp [Value.IsListOf])
  | _ => simp [Value.toTree, Reader.list, Value.IsListOf]

end Accepts

section Fields

variable {names : List String} {levels : Nat} {held : Bool}

def Fields.ofEntries (s : Scope) (entries : Dict Value) : Fields :=
  ⟨s, fun name => (Dict.get? entries name).map Value.toTree⟩

theorem lookup_toTrees (entries : Dict Value) :
    Fields.lookup (entries.map fun e => (e.1, e.2.toTree)) =
      fun name => (Dict.get? entries name).map Value.toTree := by
  funext name
  induction entries with
  | nil => rfl
  | cons e rest ih =>
    obtain ⟨k, v⟩ := e
    by_cases hk : k = name
    · simp [Fields.lookup, Dict.get?_cons, hk]
    · rw [Dict.get?_cons, if_neg (Ne.symm hk), ← ih]
      simp [Fields.lookup, hk]

theorem distinct_toTrees {entries : Dict Value} :
    Fields.distinct names (entries.map fun e => (e.1, e.2.toTree)) = true ↔
      ∀ name ∈ names, (entries.filter (·.1 = name)).length ≤ 1 := by
  simp [Fields.distinct, List.filter_map, Function.comp_def]

theorem of?_record (entries : Dict Value) :
    Fields.of? names ⟨levels + 1, held⟩ (Value.record entries).toTree =
      if ∀ name ∈ names, (entries.filter (·.1 = name)).length ≤ 1 then
        some (.ofEntries ⟨levels, held⟩ entries)
      else none := by
  rw [Value.toTree_record]
  simp only [Fields.of?, Fields.ofRecord?, Scope.enter?, Fields.keyed?_toTrees, guard,
    distinct_toTrees, lookup_toTrees, Option.pure_def, Option.bind_eq_bind, Option.bind_some]
  split <;> rfl

theorem of?_list (items : List Value) :
    Fields.of? names ⟨levels + 1, held⟩ (Value.list items).toTree =
      if items.length ≤ names.length then some (.ofEntries ⟨levels, held⟩ (names.zip items))
      else none := by
  have hzip : names.zip (items.map Value.toTree) =
      (names.zip items).map fun e => (e.1, e.2.toTree) := List.zip_map_right
  rw [Value.toTree_list]
  simp only [Fields.of?, Fields.ofList?, Scope.enter?, guard, List.length_map, hzip,
    lookup_toTrees, Option.pure_def, Option.bind_eq_bind, Option.bind_some]
  split <;> rfl

theorem exists_of?_iff {v : Value} {p : Fields → Prop} :
    (∃ f, Fields.of? names ⟨levels + 1, held⟩ v.toTree = some f ∧ p f) ↔
      ∃ entries, v.HasEntries names entries ∧ p (.ofEntries ⟨levels, held⟩ entries) := by
  constructor
  · rintro ⟨f, h, hp⟩
    cases v with
    | record entries =>
      rw [of?_record, Option.ite_none_right_eq_some] at h
      exact ⟨entries, .record h.1, Option.some.inj h.2 ▸ hp⟩
    | list items =>
      rw [of?_list, Option.ite_none_right_eq_some] at h
      exact ⟨_, .list h.1, Option.some.inj h.2 ▸ hp⟩
    | _ => cases h
  · rintro ⟨entries, hentries, hp⟩
    refine ⟨_, ?_, hp⟩
    cases hentries with
    | record once => rw [of?_record, if_pos once]
    | list short => rw [of?_list, if_pos short]

theorem Accepts.optional {α : Type} {n : Nat} {r : Reader α} {P : Value → Prop}
    (h : Accepts n r P) {s : Scope} (hs : n ≤ s.levels) (entries : Dict Value) (name : String)
    (default : α) : (∃ a, (Fields.ofEntries s entries).optional name default r = some a) ↔
      ∀ v, Dict.get? entries name = some v → P v := by
  cases hv : Dict.get? entries name with
  | none => simp [Fields.ofEntries, Fields.optional, hv]
  | some v => simpa [Fields.ofEntries, Fields.optional, hv] using h s v hs

theorem of?_ofFields {written : List (String × Value)} (h : (Dict.keys written).Nodup) :
    ∃ entries, Fields.of? names ⟨levels + 1, held⟩ (Value.ofFields written).toTree =
        some (.ofEntries ⟨levels, held⟩ entries) ∧
      ∀ e ∈ written, Dict.get? entries e.1 = some e.2 := by
  have hperm := Dict.ofList_perm h
  have hnodup : (Dict.keys (Dict.ofList written)).Nodup := (hperm.map Prod.fst).nodup_iff.mpr h
  refine ⟨Dict.ofList written, ?_, fun e he => Dict.get?_of_mem hnodup (hperm.mem_iff.mpr he)⟩
  rw [Value.ofFields, of?_record, if_pos]
  refine distinct_toTrees.mp (Fields.distinct_of_nodup ?_ names)
  rw [List.map_map]
  exact hnodup

end Fields

end Json

theorem Json.read_texts {levels : Nat} (h : 0 < levels) (held : Bool) (items : List String) :
    Reader.list Reader.text ⟨levels, held⟩ (Value.texts items).toTree = some items := by
  cases levels with
  | zero => exact absurd h (Nat.lt_irrefl 0)
  | succ levels =>
    have hitems : (items.map fun s => Tree.text (some s)).mapM (Reader.text ⟨levels, held⟩) =
        some items := by
      rw [List.mapM_map]
      exact (List.mapM_pure (m := Option) (f := id)).trans (by simp)
    rw [Value.texts, Value.toTree_list, List.map_map]
    exact hitems

/-! ## The sections -/

theorem exists_bind_iff {α β : Type} {x : Option α} {f : α → Option β} :
    (∃ b, x.bind f = some b) ↔ ∃ a, x = some a ∧ ∃ b, f a = some b := by
  cases x <;> simp

theorem Json.Scope.top_eq : Scope.top = ⟨126 + 1, false⟩ := rfl

namespace Markers

open Json.Value

def fields : List (String × (Value → Prop)) :=
  [("module", IsText), ("module_name_property", IsText), ("runtime", IsText),
    ("injection", IsText), ("new_instance", IsText), ("implementation_property", IsText),
    ("unset_sentinel", IsText), ("component", IsText), ("dagger_module", IsText),
    ("provides", IsText), ("nullable", IsListOf IsText)]

theorem exists_read_iff (v : Value) :
    (∃ m, Markers.read .top v.toTree = some m) ↔ ∃ entries, v.HasEntries fieldNames entries ∧
      ∀ f ∈ fields, ∀ w, Dict.get? entries f.1 = some w → f.2 w := by
  have htext (entries : Dict Value) :=
    accepts_text.optional (Nat.zero_le (Scope.levels ⟨126, false⟩)) entries
  have htexts (entries : Dict Value) :=
    (accepts_text (n := 0)).list.optional (show 1 ≤ Scope.levels ⟨126, false⟩ by decide) entries
  simp only [Markers.read, Scope.top_eq, Option.bind_eq_bind, exists_bind_iff, exists_of?_iff,
    Option.pure_def, Option.some.injEq, exists_eq', exists_and_right, and_true, htext, htexts,
    fields, List.forall_mem_cons, List.not_mem_nil, false_implies, implies_true]

def written (m : Markers) : List (String × Value) :=
  [("module", .text m.module), ("module_name_property", .text m.moduleNameProperty),
    ("runtime", .text m.runtime), ("injection", .text m.injection),
    ("new_instance", .text m.newInstance),
    ("implementation_property", .text m.implementationProperty),
    ("unset_sentinel", .text m.unsetSentinel), ("component", .text m.component),
    ("dagger_module", .text m.daggerModule), ("provides", .text m.provides),
    ("nullable", .texts m.nullable)]

theorem toValue_eq (m : Markers) : m.toValue = .ofFields m.written := rfl

theorem nodup_keys_written (m : Markers) : (Dict.keys m.written).Nodup := by
  change fieldNames.Nodup
  decide

theorem read_toValue (m : Markers) : Markers.read .top m.toValue.toTree = some m := by
  obtain ⟨entries, hof, hget⟩ := @of?_ofFields fieldNames 126 false _ m.nodup_keys_written
  have hnullable := read_texts (Nat.succ_pos 125) false m.nullable
  simp only [written, List.forall_mem_cons] at hget
  rw [Markers.read, Scope.top_eq, toValue_eq, hof]
  simp [Fields.optional, Fields.ofEntries, hget, Value.toTree, Reader.text, hnullable]

end Markers

namespace OutputSection

open Json.Value

def fields : List (String × (Value → Prop)) := [("directory", fun v => v = .null ∨ v.IsText)]

theorem exists_read_iff (v : Value) :
    (∃ o, OutputSection.read .top v.toTree = some o) ↔ ∃ entries,
      v.HasEntries ["directory"] entries ∧
        ∀ f ∈ fields, ∀ w, Dict.get? entries f.1 = some w → f.2 w := by
  have hdirectory (entries : Dict Value) :=
    accepts_text.nullable.optional (Nat.zero_le (Scope.levels ⟨126, false⟩)) entries
  simp only [OutputSection.read, Scope.top_eq, Option.bind_eq_bind, exists_bind_iff,
    exists_of?_iff, Option.pure_def, Option.some.injEq, exists_eq', and_true, hdirectory, fields,
    List.forall_mem_cons, List.not_mem_nil, false_implies, implies_true]

theorem read_toValue (o : OutputSection) : OutputSection.read .top o.toValue.toTree = some o := by
  obtain ⟨_ | directory⟩ := o <;> rfl

end OutputSection

namespace Config

variable {c : Config}

theorem get_set (c : Config) (name other : String) (v : Value) :
    (c.set name v).get other = if other = name then v else c.get other := by
  rw [get, set, Dict.get?_put]
  split <;> rfl

section Sections

variable {α : Type} {name : String} {default : α} {r : Reader α}

theorem exists_section?_iff : (∃ a, c.section? name default r = some a) ↔
    c.get name = .null ∨ ∃ a, r .top (c.get name).toTree = some a := by
  unfold section? getAs
  cases c.get name <;> simp [Value.toTree, Reader.nullable]

theorem section?_of_get {fields : List (String × Value)} (h : c.get name = .ofFields fields) :
    c.section? name default r = r .top (Value.ofFields fields).toTree := by
  rw [section?, getAs, h]
  change ((r .top (Value.ofFields fields).toTree).map some).map _ = _
  cases r .top (Value.ofFields fields).toTree <;> rfl

end Sections

theorem markers?_eq_none_iff : c.markers? = none ↔ ¬ (c.get "markers").Decodes Markers.fields := by
  rw [← not_iff_not, not_not, ← ne_eq, Option.ne_none_iff_exists', markers?, exists_section?_iff,
    Markers.exists_read_iff]
  rfl

theorem output?_eq_none_iff :
    c.output? = none ↔ ¬ (c.get "output").Decodes OutputSection.fields := by
  rw [← not_iff_not, not_not, ← ne_eq, Option.ne_none_iff_exists', output?, exists_section?_iff,
    OutputSection.exists_read_iff]
  rfl

def withSections (c : Config) (m : Markers) (o : OutputSection) : Config :=
  (c.set "markers" m.toValue).set "output" o.toValue

theorem effective?_eq_some_iff {e : Config} : c.effective? = some e ↔
    ∃ m o, c.markers? = some m ∧ c.output? = some o ∧ e = c.withSections m o := by
  unfold effective?
  cases c.markers? <;> cases c.output? <;> simp [withSections, eq_comm]

theorem effective?_eq_none_iff : c.effective? = none ↔ c.markers? = none ∨ c.output? = none := by
  unfold effective?
  cases c.markers? <;> cases c.output? <;> simp

section WithSections

variable (c) (m : Markers) (o : OutputSection)

theorem markers?_withSections : (c.withSections m o).markers? = some m := by
  have hget : (c.withSections m o).get "markers" = .ofFields m.written := by
    rw [withSections, get_set, if_neg (by decide), get_set, if_pos rfl, Markers.toValue_eq]
  rw [markers?, section?_of_get hget, ← Markers.toValue_eq, Markers.read_toValue]

theorem output?_withSections : (c.withSections m o).output? = some o := by
  have hget : (c.withSections m o).get "output" = o.toValue := by
    rw [withSections, get_set, if_pos rfl]
  rw [output?, section?_of_get hget]
  exact o.read_toValue

theorem withSections_withSections :
    (c.withSections m o).withSections m o = c.withSections m o := by
  have hlt : "markers" < "output" := by decide
  simp only [withSections, set]
  rw [Dict.put_comm_of_lt _ hlt, Dict.put_put, ← Dict.put_comm_of_lt _ hlt, Dict.put_put]

end WithSections

/-- Which sections can be read is told from their fields, and the effective configuration exists
exactly when both can. It reads as the same sections, in which every field stands, and has all other
entries as they were; its own effective configuration is itself. -/
theorem effective?_settled (c : Config) :
    (c.effective? = none ↔ c.markers? = none ∨ c.output? = none) ∧
    (c.markers? = none ↔ ¬ (c.get "markers").Decodes Markers.fields) ∧
    (c.output? = none ↔ ¬ (c.get "output").Decodes OutputSection.fields) ∧
    ∀ e, c.effective? = some e →
      e.markers? = c.markers? ∧ e.output? = c.output? ∧
      (∀ name, name ≠ "markers" → name ≠ "output" →
        Dict.get? e.entries name = Dict.get? c.entries name) ∧
      (∃ fields, Dict.get? e.entries "markers" = some (.record fields) ∧
        (Dict.keys fields).Perm Markers.fieldNames) ∧
      (∃ directory, Dict.get? e.entries "output" = some (.record [("directory", directory)])) ∧
      e.effective? = some e := by
  refine ⟨effective?_eq_none_iff, markers?_eq_none_iff, output?_eq_none_iff, ?_⟩
  intro e he
  obtain ⟨m, o, hm, ho, rfl⟩ := effective?_eq_some_iff.mp he
  have hmarkers := c.markers?_withSections m o
  have houtput := c.output?_withSections m o
  refine ⟨hmarkers.trans hm.symm, houtput.trans ho.symm, ?_, ?_, ?_, ?_⟩
  · intro name hne hne'
    simp only [withSections, set, Dict.get?_put, if_neg hne, if_neg hne']
  · refine ⟨Dict.ofList m.written, ?_, (Dict.ofList_perm m.nodup_keys_written).map Prod.fst⟩
    rw [withSections, set, Dict.get?_put, if_neg (by decide), set, Dict.get?_put, if_pos rfl]
    rfl
  · refine ⟨.ofText? o.directory, ?_⟩
    rw [withSections, set, Dict.get?_put, if_pos rfl]
    rfl
  · exact effective?_eq_some_iff.mpr
      ⟨m, o, hmarkers, houtput, (c.withSections_withSections m o).symm⟩

end Config

def partialConfig : Config :=
  ⟨[("markers", .record [("extra", .int 1), ("nullable", .texts ["CheckForNull"])]),
    ("output", .null), ("tracing", .record [("level", .text "debug")])]⟩

theorem partialConfig_settled : ∃ e, partialConfig.effective? = some e ∧
    e.markers? = some { Markers.default with nullable := ["CheckForNull"] } ∧
    e.output? = some .default ∧
    Dict.get? e.entries "tracing" = some (.record [("level", .text "debug")]) ∧
    e.effective? = some e := by
  have hmarkers : partialConfig.markers? =
      some { Markers.default with nullable := ["CheckForNull"] } := rfl
  have houtput : partialConfig.output? = some .default := rfl
  obtain ⟨hnone, -, -, hsome⟩ := Config.effective?_settled partialConfig
  cases he : partialConfig.effective? with
  | none =>
    have hfail := hnone.mp he
    simp [hmarkers, houtput] at hfail
  | some e =>
    obtain ⟨hm, ho, hother, -, -, hfix⟩ := hsome e he
    exact ⟨e, rfl, hm.trans hmarkers, ho.trans houtput,
      (hother "tracing" (by decide) (by decide)).trans rfl, hfix⟩

end Provisioning
