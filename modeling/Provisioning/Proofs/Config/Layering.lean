import Provisioning.Config.Layers

/-! # What lies at a path of a layered configuration

A layer decides what lies at a path on its own: it hides the old value behind
something that is no record, merges its own value into the old one, or has
nothing to say. So the value at a path is a fold over the layers, and no other
path of the layers has a part in it.
-/

namespace Provisioning

namespace Json.Value

def isRecord : Value → Bool
  | .record _ => true
  | _ => false

def isList : Value → Bool
  | .list _ => true
  | _ => false

def at? : Value → List String → Option Value
  | v, [] => some v
  | .record fields, key :: rest =>
    match Dict.get? fields key with
    | some v => at? v rest
    | none => none
  | _, _ :: _ => none

/-- On the way to the end of the path, not at its beginning and not at its end, there is a value
that is no record. -/
def Blocks (v : Value) (path : List String) : Prop :=
  ∃ n < path.length, 0 < n ∧ (v.at? (path.take n)).any (fun w => !w.isRecord) = true

instance (v : Value) (path : List String) : Decidable (v.Blocks path) :=
  inferInstanceAs (Decidable (∃ n < path.length, 0 < n ∧
    (v.at? (path.take n)).any (fun w => !w.isRecord) = true))

/-- On the way to the end of the path there are records only, and at its end there is nothing. -/
def Untouched (v : Value) (path : List String) : Prop := ¬ v.Blocks path ∧ v.at? path = none

/-- What lies at a path when a layer is laid over a value in which `old` lies there. -/
def layOver (path : List String) (old : Option Value) (layer : Value) : Option Value :=
  if layer.Blocks path then none
  else match layer.at? path with
    | none => old
    | some v =>
      match old with
      | none => some v
      | some o => some (o.merge v)

inductive Merged : Value → Value → Value → Prop
  | lists (items later : List Value) : Merged (.list items) (.list later) (.list (items ++ later))
  | records {fields later merged : List (String × Value)}
      (h : ∀ key, Dict.get? merged key =
        match Dict.get? fields key, Dict.get? later key with
        | old, none => old
        | none, some v => some v
        | some o, some v => some (o.merge v)) :
    Merged (.record fields) (.record later) (.record merged)
  | replaced {old v : Value} (hlists : ¬ (old.isList = true ∧ v.isList = true))
      (hrecords : ¬ (old.isRecord = true ∧ v.isRecord = true)) : Merged old v v

mutual

def Ordered : Value → Prop
  | .list items => ItemsOrdered items
  | .record fields => Dict.Sorted fields ∧ FieldsOrdered fields
  | _ => True

def ItemsOrdered : List Value → Prop
  | [] => True
  | v :: rest => Ordered v ∧ ItemsOrdered rest

def FieldsOrdered : List (String × Value) → Prop
  | [] => True
  | (_, v) :: rest => Ordered v ∧ FieldsOrdered rest

end

@[simp] theorem at?_nil (v : Value) : v.at? [] = some v := by
  cases v <;> rfl

theorem at?_record_cons (fields : List (String × Value)) (key : String) (rest : List String) :
    (record fields).at? (key :: rest) = (Dict.get? fields key).bind fun v => v.at? rest := by
  rw [at?]
  cases Dict.get? fields key <;> rfl

theorem at?_cons_of_not_record {v : Value} (h : v.isRecord = false) (key : String)
    (rest : List String) : v.at? (key :: rest) = none := by
  cases v with
  | record fields => cases h
  | _ => rfl

theorem exists_fields {v : Value} (h : v.isRecord = true) : ∃ fields, v = .record fields := by
  cases v with
  | record fields => exact ⟨fields, rfl⟩
  | _ => cases h

theorem not_blocks_singleton (v : Value) (key : String) : ¬ v.Blocks [key] := by
  rintro ⟨n, hn, hpos, -⟩
  rw [List.length_singleton] at hn
  omega

/-- A path of two keys or more is blocked by what lies at the first key: by itself if it is no
record, and else by what it holds. -/
theorem blocks_record_cons_cons (fields : List (String × Value)) (key next : String)
    (rest : List String) : (record fields).Blocks (key :: next :: rest) ↔
      ∃ v, Dict.get? fields key = some v ∧ (v.isRecord = false ∨ v.Blocks (next :: rest)) := by
  constructor
  · rintro ⟨n, hn, hpos, h⟩
    obtain ⟨n, rfl⟩ : ∃ m, n = m + 1 := ⟨n - 1, by omega⟩
    rw [List.take_succ_cons, at?_record_cons] at h
    cases hv : Dict.get? fields key with
    | none => simp [hv] at h
    | some v =>
      refine ⟨v, rfl, ?_⟩
      simp only [hv, Option.bind_some] at h
      cases n with
      | zero => exact .inl (by simpa using h)
      | succ m => exact .inr ⟨m + 1, by simpa using hn, Nat.succ_pos m, h⟩
  · rintro ⟨v, hv, h | ⟨n, hn, hpos, h⟩⟩
    · exact ⟨1, by simp, Nat.one_pos, by simp [at?_record_cons, hv, h]⟩
    · refine ⟨n + 1, by simpa using hn, Nat.succ_pos n, ?_⟩
      rw [List.take_succ_cons, at?_record_cons, hv]
      exact h

theorem fieldsOrdered_iff {fields : List (String × Value)} :
    FieldsOrdered fields ↔ ∀ e ∈ fields, e.2.Ordered := by
  induction fields with
  | nil => simp [FieldsOrdered]
  | cons e rest ih => simp [FieldsOrdered, ih]

theorem ordered_of_get? {fields : List (String × Value)} (h : (record fields).Ordered) {key : String}
    {v : Value} (hv : Dict.get? fields key = some v) : v.Ordered := by
  rw [Ordered] at h
  exact fieldsOrdered_iff.mp h.2 _ (Dict.mem_of_get?_eq_some hv)

theorem get?_mergeFields {fields later : List (String × Value)} (h : Dict.Sorted later)
    (key : String) : Dict.get? (mergeFields fields later) key =
      match Dict.get? later key with
      | some v => some (((Dict.get? fields key).getD .null).merge v)
      | none => Dict.get? fields key := by
  induction later generalizing fields with
  | nil => rfl
  | cons e rest ih =>
    obtain ⟨k, w⟩ := e
    obtain ⟨hk, hrest⟩ := (Dict.sorted_cons k w rest).mp h
    rw [mergeFields, ih hrest, Dict.get?_put, Dict.get?_cons]
    by_cases he : key = k
    · subst he
      -- the key does not come again
      have hnone : Dict.get? rest key = none := by
        rw [Dict.get?_eq_none_iff]
        exact fun hm => String.lt_irrefl key (hk key hm)
      rw [hnone, if_pos rfl, if_pos rfl]
    · rw [if_neg he, if_neg he]

theorem merge_null (v : Value) : merge .null v = v := by
  cases v <;> rfl

theorem merge_of_not_record {a b : Value} (h : a.isRecord = false) (hb : b.isRecord = true) :
    a.merge b = b := by
  obtain ⟨fields, rfl⟩ := exists_fields hb
  cases a with
  | record => cases h
  | _ => rfl

theorem isRecord_merge (a b : Value) : (a.merge b).isRecord = b.isRecord := by
  cases a <;> cases b <;> rfl

theorem at?_of_blocks {v : Value} {path : List String} (h : v.Blocks path) : v.at? path = none := by
  induction path generalizing v with
  | nil =>
    obtain ⟨n, hn, -⟩ := h
    exact absurd hn (Nat.not_lt_zero n)
  | cons key rest ih =>
    cases hv : v.isRecord with
    | false => exact at?_cons_of_not_record hv key rest
    | true =>
      obtain ⟨fields, rfl⟩ := exists_fields hv
      cases rest with
      | nil => exact absurd h (not_blocks_singleton _ key)
      | cons next more =>
        obtain ⟨w, hw, hstop | hblocks⟩ := (blocks_record_cons_cons fields key next more).mp h
        · rw [at?_record_cons, hw]
          exact at?_cons_of_not_record hstop next more
        · rw [at?_record_cons, hw]
          exact ih hblocks

theorem layOver_none (path : List String) (layer : Value) :
    layOver path none layer = layer.at? path := by
  unfold layOver
  split
  · exact (at?_of_blocks ‹_›).symm
  · cases layer.at? path <;> rfl

/-- Behind the first key of a path, a layer decides by what it holds at that key. -/
theorem layOver_cons_cons {later : List (String × Value)} {key : String} {v : Value}
    (hv : Dict.get? later key = some v) (hrecord : v.isRecord = true) (next : String)
    (rest : List String) (old : Option Value) :
    layOver (key :: next :: rest) old (record later) = layOver (next :: rest) old v := by
  have hblocks : (record later).Blocks (key :: next :: rest) ↔ v.Blocks (next :: rest) := by
    simp [blocks_record_cons_cons, hv, hrecord]
  have hat : (record later).at? (key :: next :: rest) = v.at? (next :: rest) := by
    rw [at?_record_cons, hv]
    rfl
  simp only [layOver, hblocks, hat]

/-- What lies at a path of a merged value. -/
theorem at?_merge {a b : Value} (hb : b.isRecord = true) (hordered : b.Ordered) {path : List String}
    (hne : path ≠ []) : (a.merge b).at? path = b.layOver path (a.at? path) := by
  induction path generalizing a b with
  | nil => exact absurd rfl hne
  | cons key rest ih =>
    obtain ⟨later, rfl⟩ := exists_fields hb
    cases ha : a.isRecord with
    | false => rw [merge_of_not_record ha hb, at?_cons_of_not_record ha, layOver_none]
    | true =>
      obtain ⟨fields, rfl⟩ := exists_fields ha
      have hsorted : Dict.Sorted later := (Ordered.eq_def (.record later) ▸ hordered).1
      rw [merge, at?_record_cons, get?_mergeFields hsorted, at?_record_cons]
      cases rest with
      | nil =>
        rw [layOver, if_neg (not_blocks_singleton _ _), at?_record_cons]
        cases Dict.get? later key <;> cases Dict.get? fields key <;> simp [merge_null]
      | cons next more =>
        cases hv : Dict.get? later key with
        | none =>
          have hfree : ¬ (record later).Blocks (key :: next :: more) := by
            simp [blocks_record_cons_cons, hv]
          rw [layOver, if_neg hfree, at?_record_cons, hv]
          rfl
        | some v =>
          -- what is new at the key is merged into null, in which nothing lies any further in
          have hold : ((Dict.get? fields key).bind fun w => w.at? (next :: more)) =
              ((Dict.get? fields key).getD .null).at? (next :: more) := by
            cases Dict.get? fields key <;> rfl
          rw [hold]
          cases hrecord : v.isRecord with
          | true =>
            rw [layOver_cons_cons hv hrecord]
            exact ih hrecord (ordered_of_get? hordered hv) (List.cons_ne_nil next more)
          | false =>
            have hstop : (record later).Blocks (key :: next :: more) := by
              simp [blocks_record_cons_cons, hv, hrecord]
            rw [layOver, if_pos hstop]
            exact at?_cons_of_not_record ((isRecord_merge _ v).trans hrecord) next more

theorem merged_merge (old v : Value) (hordered : v.Ordered) : Merged old v (old.merge v) := by
  cases old <;> cases v <;> try exact .replaced (by simp [isList]) (by simp [isRecord])
  case list.list items later => exact .lists items later
  case record.record fields later =>
    refine .records fun key => ?_
    rw [get?_mergeFields (Ordered.eq_def (.record later) ▸ hordered).1]
    cases Dict.get? later key <;> cases Dict.get? fields key <;> simp [merge_null]

theorem layOver_of_untouched {v : Value} {path : List String} (h : v.Untouched path)
    (old : Option Value) : layOver path old v = old := by
  rw [layOver, if_neg h.1, h.2]

theorem layOver_of_at? {v w : Value} {path : List String} (h : v.at? path = some w) (o : Value) :
    layOver path (some o) v = some (o.merge w) := by
  have hfree : ¬ v.Blocks path := by
    intro hblocks
    rw [at?_of_blocks hblocks] at h
    cases h
  rw [layOver, if_neg hfree, h]

end Json.Value

namespace Json.Tree

open Value (Ordered ItemsOrdered FieldsOrdered fieldsOrdered_iff)

mutual

theorem ordered_of_value? (levels : Nat) (t : Tree) {v : Value} (h : t.value? levels = some v) :
    v.Ordered := by
  cases t with
  | null => cases h; trivial
  | bool b => cases h; trivial
  | number n =>
    rw [value?] at h
    obtain ⟨m, -, rfl⟩ := Option.map_eq_some_iff.mp h
    trivial
  | text s =>
    rw [value?] at h
    obtain ⟨m, -, rfl⟩ := Option.map_eq_some_iff.mp h
    trivial
  | list items =>
    cases levels with
    | zero => cases h
    | succ levels =>
      rw [value?] at h
      obtain ⟨vs, hvs, rfl⟩ := Option.map_eq_some_iff.mp h
      exact itemsOrdered_of_values? levels items hvs
  | record fields =>
    cases levels with
    | zero => cases h
    | succ levels =>
      rw [value?] at h
      obtain ⟨es, hes, rfl⟩ := Option.map_eq_some_iff.mp h
      refine ⟨Dict.sorted_ofList es, fieldsOrdered_iff.mpr fun e he => ?_⟩
      exact ordered_of_entries? levels fields hes e (Dict.mem_of_mem_ofList he)

theorem itemsOrdered_of_values? (levels : Nat) (items : List Tree) {vs : List Value}
    (h : values? levels items = some vs) : ItemsOrdered vs := by
  cases items with
  | nil => cases h; trivial
  | cons t rest =>
    rw [values?] at h
    obtain ⟨v, hv, h⟩ := Option.bind_eq_some_iff.mp h
    obtain ⟨more, hmore, h⟩ := Option.bind_eq_some_iff.mp h
    cases h
    exact ⟨ordered_of_value? levels t hv, itemsOrdered_of_values? levels rest hmore⟩

theorem ordered_of_entries? (levels : Nat) (entries : List (Option String × Tree))
    {es : List (String × Value)} (h : entries? levels entries = some es) : ∀ e ∈ es, e.2.Ordered := by
  cases entries with
  | nil =>
    cases h
    exact fun _ h => absurd h List.not_mem_nil
  | cons entry rest =>
    obtain ⟨key, t⟩ := entry
    rw [entries?] at h
    obtain ⟨k, -, h⟩ := Option.bind_eq_some_iff.mp h
    obtain ⟨v, hv, h⟩ := Option.bind_eq_some_iff.mp h
    obtain ⟨more, hmore, h⟩ := Option.bind_eq_some_iff.mp h
    cases h
    intro e he
    rcases List.mem_cons.mp he with rfl | he
    · exact ordered_of_value? levels t hv
    · exact ordered_of_entries? levels rest hmore e he

end

end Json.Tree

namespace Config

open Json Json.Value

def Ordered (c : Config) : Prop := c.toValue.Ordered

theorem ordered_of_read {s : Scope} {t : Tree} {c : Config} (h : Config.read s t = some c) :
    c.Ordered := by
  unfold Config.read at h
  split at h
  · rename_i entries hentries
    cases h
    exact Tree.ordered_of_value? s.levels t hentries
  · cases h

theorem toValue_merge (c later : Config) :
    (c.merge later).toValue = c.toValue.merge later.toValue := rfl

theorem at?_foldl_merge (base : Config) {layers : List Config} (h : ∀ c ∈ layers, c.Ordered)
    {path : List String} (hne : path ≠ []) : (layers.foldl merge base).toValue.at? path =
      layers.foldl (fun old layer => layer.toValue.layOver path old) (base.toValue.at? path) := by
  induction layers generalizing base with
  | nil => rfl
  | cons layer rest ih =>
    obtain ⟨hlayer, hrest⟩ := List.forall_mem_cons.mp h
    rw [List.foldl_cons, ih _ hrest, toValue_merge, at?_merge rfl hlayer hne, List.foldl_cons]

theorem foldl_layOver_of_untouched {layers : List Config} {path : List String}
    (h : ∀ c ∈ layers, c.toValue.Untouched path) (old : Option Value) :
    layers.foldl (fun old layer => layer.toValue.layOver path old) old = old := by
  induction layers generalizing old with
  | nil => rfl
  | cons layer rest ih =>
    obtain ⟨hlayer, hrest⟩ := List.forall_mem_cons.mp h
    rw [List.foldl_cons, layOver_of_untouched hlayer, ih hrest]

/-- What lies at a path of merged layers is found layer by layer: a layer hides it behind something
that is no record, has a value that is merged into it by the rules, or leaves it as it is. So what
later layers leave untouched stays, lists at one path are joined, and the last value that is no
record or list stands alone. -/
theorem value_at_path_of_layers (base : Config) (overrides : List Config)
    (h : ∀ c ∈ overrides, c.Ordered) (path : List String) (hne : path ≠ []) :
    let found (layers : List Config) := (layers.foldl merge base).toValue.at? path
    found overrides =
        (base :: overrides).foldl (fun old layer => layer.toValue.layOver path old) none ∧
      (∀ old v : Value, v.Ordered → Merged old v (old.merge v)) ∧
      (∀ early late, overrides = early ++ late → (∀ c ∈ late, c.toValue.Untouched path) →
        found overrides = found early) ∧
      (∀ early layer late, overrides = early ++ layer :: late →
        (∀ c ∈ late, c.toValue.Untouched path) →
        (∀ items more, found early = some (.list items) →
          layer.toValue.at? path = some (.list more) →
            found overrides = some (.list (items ++ more))) ∧
        (∀ v, layer.toValue.at? path = some v → v.isRecord = false → v.isList = false →
          found overrides = some v)) := by
  intro found
  have hfound : ∀ early late, overrides = early ++ late → found overrides =
      late.foldl (fun old layer => layer.toValue.layOver path old) (found early) := by
    rintro early late rfl
    have hlate : ∀ c ∈ late, c.Ordered := fun c hc => h c (List.mem_append_right early hc)
    simp only [found, List.foldl_append]
    exact at?_foldl_merge _ hlate hne
  refine ⟨?_, merged_merge, ?_, ?_⟩
  · rw [List.foldl_cons, layOver_none]
    exact at?_foldl_merge base h hne
  · intro early late he hlate
    rw [hfound early late he, foldl_layOver_of_untouched hlate]
  · intro early layer late he hlate
    have hlast : found overrides = layer.toValue.layOver path (found early) := by
      rw [hfound early (layer :: late) he, List.foldl_cons, foldl_layOver_of_untouched hlate]
    refine ⟨?_, ?_⟩
    · intro items more hearly hlayer
      rw [hlast, hearly, layOver_of_at? hlayer]
      rfl
    · intro v hlayer hrecord hlist
      rw [hlast]
      cases hearly : found early with
      | none => rw [layOver_none, hlayer]
      | some o =>
        rw [layOver_of_at? hlayer]
        cases v with
        | record => cases hrecord
        | list => cases hlist
        | _ => cases o <;> rfl

end Config

def poolBase : Config :=
  ⟨[("mode", .record [("name", .text "slow")]),
    ("pool", .record [("names", .texts ["a"]), ("tags", .texts ["b"])])]⟩

def poolOverrides : List Config :=
  [⟨[("mode", .text "fast"), ("pool", .record [("names", .texts ["c", "d"])])]⟩,
    ⟨[("pool", .record [("tags", .null)])]⟩]

theorem poolOverrides_resolved :
    (∀ c ∈ poolOverrides, c.Ordered) ∧
      let merged := (poolOverrides.foldl Config.merge poolBase).toValue
      merged.at? ["pool", "names"] = some (.texts ["a", "c", "d"]) ∧
        merged.at? ["pool", "tags"] = some .null ∧ merged.at? ["mode", "name"] = none := by
  have hread : ∀ c ∈ poolOverrides, Config.read .top c.toValue.toTree = some c := by
    rintro c (_ | ⟨_, _ | ⟨_, ⟨⟩⟩⟩) <;> rfl
  have hordered : ∀ c ∈ poolOverrides, c.Ordered :=
    fun c hc => Config.ordered_of_read (hread c hc)
  have hat := Config.value_at_path_of_layers poolBase poolOverrides hordered
  refine ⟨hordered, ?_, ?_, ?_⟩
  · exact (hat ["pool", "names"] (List.cons_ne_nil _ _)).1.trans rfl
  · exact (hat ["pool", "tags"] (List.cons_ne_nil _ _)).1.trans rfl
  · exact (hat ["mode", "name"] (List.cons_ne_nil _ _)).1.trans rfl

end Provisioning
