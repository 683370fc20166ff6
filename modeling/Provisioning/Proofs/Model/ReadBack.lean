import Provisioning.Proofs.Model.Exact
import Provisioning.Proofs.Model.WellFormed

/-! # Reading declarations back

Every document of a well-formed declaration is read as the declaration, and every
declaration that is read is well-formed.
-/

namespace Provisioning

open Json

variable {n : Nat}

theorem TypeText.reads (t : TypeText) : Reads n TypeText.read (· = t.toValue) t :=
  (Reads.text t.text).map TypeText.mk

theorem Modifier.reads (m : Modifier) : Reads n Modifier.read (· = .text m.keyword) m :=
  Reads.word (by cases m <;> rfl)

theorem Modifiers.reads (s : Modifiers) : Reads n Modifiers.read (· = s.toValue) s := by
  have hlist := (Reads.list_map (Modifier.reads (n := n)) s.toList).map Modifiers.ofList
  rw [Modifiers.ofList_toList] at hlist
  refine hlist.of_imp ?_
  rintro _ rfl
  rw [Modifiers.toValue, Value.texts, List.map_map]
  rfl

theorem DeclKind.reads (k : DeclKind) : Reads n DeclKind.read (· = .text k.keyword) k :=
  Reads.word (by cases k <;> rfl)

/-! ## Constants and annotations -/

namespace Constant

theorem exists_tagged? {kind : Kind} {Holds : Value → Prop} {s : Scope} {v : Value}
    (h : Tagged kind Holds v) (hd : v.depth ≤ s.levels) :
    ∃ w inner, tagged? s v.toTree = some (kind, w.toTree, inner) ∧ Holds w ∧
      w.depth < v.depth ∧ w.depth ≤ inner.levels := by
  obtain ⟨f, hf, hhas⟩ := Fields.exists_ofRecord? (nodup_tag kind Holds) h hd
  simp only [List.forall_mem_cons] at hhas
  obtain ⟨hkind, hvalue, -⟩ := hhas
  have hword : Reads v.depth (Reader.word Kind.ofKeyword?) (· = .text kind.keyword) kind :=
    Reads.word (by cases kind <;> rfl)
  have hread := hkind.required (Nat.le_refl _) hword
  rcases hvalue with ⟨habsurd, -⟩ | ⟨w, hw, hlt, hdw, hfind⟩
  · exact habsurd.elim
  · obtain ⟨fields, -, rfl, -⟩ := h
    rw [Value.toTree_record] at hf ⊢
    replace hf : Fields.ofRecord? ["kind", "value"] s _ = some f := hf
    replace hfind : f.find "value" = some w.toTree := hfind
    by_cases hfirst : valueFirst (fields.map fun e => (e.1, e.2.toTree)) = true
    · refine ⟨w, { f.scope with held := true }, ?_, hw, hlt, hdw⟩
      simp [tagged?, hf, hread, hfind, Fields.keyed?_toTrees, hfirst, Tree.readable_toTree hdw]
    · refine ⟨w, f.scope, ?_, hw, hlt, hdw⟩
      simp [tagged?, hf, hread, hfind, Fields.keyed?_toTrees, hfirst]

theorem reads_use {read : Reader Constant} {E : Constant → Value → Prop} {t : TypeText}
    {values : Dict Constant} (hsorted : Dict.Sorted values)
    (h : ∀ e ∈ values, Reads n read (E e.2) e.2) :
    Reads n (readUse read) (RecordOf (useSlots t (DictOf E values) (values = []))) ⟨t, values⟩ := by
  intro s v hv hn hd
  obtain ⟨f, hf, hhas⟩ := Fields.exists_of? (nodup_useSlots _ _ _) hv hd
  simp only [useSlots, List.forall_mem_cons] at hhas
  obtain ⟨htype, hvalues, -⟩ := hhas
  have hf : Fields.of? ["type", "values"] s v.toTree = some f := hf
  have htype := htype.required hn t.reads
  have hvalues : f.optional "values" [] (Reader.dict read) = some values :=
    hvalues.optional hn (Reads.dict hsorted h) id
  simp [readUse, hf, htype, hvalues]

theorem reads_enum (t : TypeText) (constant : String) :
    Reads n readEnum (RecordOf (enumSlots t constant)) (.enum t constant) := by
  intro s v hv hn hd
  obtain ⟨f, hf, hhas⟩ := Fields.exists_ofRecord? (nodup_enumSlots t constant) hv hd
  simp only [enumSlots, List.forall_mem_cons] at hhas
  obtain ⟨htype, hconstant, -⟩ := hhas
  have hf : Fields.ofRecord? ["type", "constant"] s v.toTree = some f := hf
  have htype := htype.required hn t.reads
  have hconstant := hconstant.required hn (Reads.text constant)
  simp [readEnum, hf, htype, hconstant]

theorem depth_pos_of_encodes {c : Constant} {v : Value} (h : c.Encodes v) : 0 < v.depth := by
  have htagged : ∃ kind Holds, Tagged kind Holds v := by
    cases c <;> (rw [Encodes] at h; exact ⟨_, _, h⟩)
  obtain ⟨_, _, fields, _, rfl, -, -⟩ := htagged
  rw [Value.depth_record]
  exact Nat.succ_pos _

/-- A constant is read with a step for every level: its value is nested less deep. -/
theorem reads_within (steps : Nat) (c : Constant) (hc : c.WellFormed) :
    Reads steps (readWithin steps) c.Encodes c := by
  induction steps generalizing c with
  | zero =>
    intro s v hv hn hd
    exact absurd hn (Nat.not_le_of_lt (depth_pos_of_encodes hv))
  | succ steps ih =>
    have step {kind : Kind} {Holds : Value → Prop} {r : Reader Constant}
        (hr : Reads steps r Holds c) (hread : ∀ s t w inner, tagged? s t = some (kind, w, inner) →
          readWithin (steps + 1) s t = r inner w) :
        Reads (steps + 1) (readWithin (steps + 1)) (Tagged kind Holds) c := by
      intro s v hv hn hd
      obtain ⟨w, inner, htag, hw, hlt, hinner⟩ := exists_tagged? hv hd
      rw [hread s v.toTree w.toTree inner htag]
      exact hr inner w hw (Nat.le_of_lt_succ (Nat.lt_of_lt_of_le hlt hn)) hinner
    cases c with
    | bool b =>
      rw [Encodes]
      exact step ((Reads.bool b).map Constant.bool) fun s t w inner htag => by
        simp [readWithin, htag]
    | int i =>
      rw [WellFormed] at hc
      rw [Encodes]
      exact step ((Reads.int64 hc).map Constant.int) fun s t w inner htag => by
        simp [readWithin, htag]
    | char c =>
      rw [Encodes]
      exact step ((Reads.char c).map Constant.char) fun s t w inner htag => by
        simp [readWithin, htag]
    | string text =>
      rw [Encodes]
      exact step ((Reads.text text).map Constant.string) fun s t w inner htag => by
        simp [readWithin, htag]
    | type t =>
      rw [Encodes]
      exact step (t.reads.map Constant.type) fun s t w inner htag => by
        simp [readWithin, htag]
    | enum t constant =>
      rw [Encodes]
      exact step (reads_enum t constant) fun s t w inner htag => by
        simp [readWithin, htag]
    | array items =>
      rw [WellFormed, itemsWellFormed_iff] at hc
      rw [encodes_array]
      exact step ((Reads.list fun c hm => ih c (hc c hm)).map Constant.array)
        fun s t w inner htag => by simp [readWithin, htag]
    | nested t values =>
      rw [WellFormed, entriesWellFormed_iff] at hc
      rw [encodes_nested]
      exact step ((reads_use hc.1 fun e hm => ih e.2 (hc.2 e hm)).map
          fun a => Constant.nested a.type a.values)
        fun s t w inner htag => by simp [readWithin, htag]

theorem reads {c : Constant} (hc : c.WellFormed) : Reads n Constant.read c.Encodes c :=
  fun s v hv _ hd => reads_within s.levels c hc s v hv hd hd

end Constant

theorem AnnotationUse.reads {a : AnnotationUse} (ha : a.WellFormed) :
    Reads n AnnotationUse.read a.Encodes a :=
  Constant.reads_use ha.1 fun e hm => Constant.reads (ha.2 e hm)

/-! ## Members and types -/

theorem Variable.reads {x : Variable} (hx : x.WellFormed) : Reads n Variable.read x.Encodes x := by
  intro s v hv hn hd
  obtain ⟨f, hf, hhas⟩ := Fields.exists_of? x.nodup_slots hv hd
  simp only [slots, List.forall_mem_cons] at hhas
  obtain ⟨hname, htype, hmodifiers, hannotations, -⟩ := hhas
  have hf : Fields.of? ["name", "type", "modifiers", "annotations"] s v.toTree = some f := hf
  have hname := hname.required hn (Reads.text x.name)
  have htype := htype.required hn x.type.reads
  have hmodifiers : f.optional "modifiers" .empty Modifiers.read = some x.modifiers :=
    hmodifiers.optional hn x.modifiers.reads id
  have hannotations : f.optional "annotations" [] (Reader.list AnnotationUse.read) =
      some x.annotations :=
    hannotations.optional hn (Reads.list fun a hm => AnnotationUse.reads (hx a hm)) id
  simp [Variable.read, hf, hname, htype, hmodifiers, hannotations]

theorem Callable.reads {m : Callable} (hm : m.WellFormed) :
    Reads n Callable.read (RecordOf m.slots) m := by
  intro s v hv hn hd
  obtain ⟨f, hf, hhas⟩ := Fields.exists_of? m.nodup_slots hv hd
  simp only [slots, List.forall_mem_cons] at hhas
  obtain ⟨hname, hmodifiers, hreturns, hparameters, hannotations, -⟩ := hhas
  have hf : Fields.of? ["name", "modifiers", "return_type", "parameters", "annotations"] s
      v.toTree = some f := hf
  have hname : f.optional "name" "" Reader.text = some m.name :=
    hname.optional hn (Reads.text m.name) id
  have hmodifiers : f.optional "modifiers" .empty Modifiers.read = some m.modifiers :=
    hmodifiers.optional hn m.modifiers.reads id
  have hreturns : f.optional "return_type" .void TypeText.read = some m.returns :=
    hreturns.optional hn m.returns.reads id
  have hparameters : f.optional "parameters" [] (Reader.list Variable.read) = some m.parameters :=
    hparameters.optional hn (Reads.list fun p hp => Variable.reads (hm.1 p hp)) id
  have hannotations : f.optional "annotations" [] (Reader.list AnnotationUse.read) =
      some m.annotations :=
    hannotations.optional hn (Reads.list fun a ha => AnnotationUse.reads (hm.2 a ha)) id
  simp [Callable.read, hf, hname, hmodifiers, hreturns, hparameters, hannotations]

namespace Member

/-- The kind is taken out of a member, wherever it stands, and leaves the other fields. -/
theorem exists_untag? {kind : String} {slots : List Slot} {v : Value}
    (hnodup : ((kindSlot kind :: slots).map Slot.name).Nodup)
    (h : RecordOf (kindSlot kind :: slots) v) :
    ∃ w, untag? v.toTree = some (kind, w.toTree) ∧ RecordOf slots w ∧ w.depth ≤ v.depth := by
  obtain ⟨fields, written, rfl, hperm, hfilled⟩ := h
  cases hfilled with
  | absent habsurd => exact habsurd.elim
  | @present _ _ value rest hkind hrest =>
    have hvalue : value = .text kind := hkind
    have hfree : ∀ e ∈ rest, e.1 ≠ "kind" := by
      intro e he heq
      have hmem : e.1 ∈ slots.map Slot.name := hrest.sublist.subset (List.mem_map_of_mem he)
      rw [List.map_cons, List.nodup_cons] at hnodup
      rw [heq] at hmem
      exact hnodup.1 hmem
    have hkinds : fields.filter (fun e => e.1 = "kind") = [("kind", .text kind)] := by
      have hnone : rest.filter (fun e => e.1 = "kind") = [] :=
        List.filter_eq_nil_iff.mpr fun e he heq => hfree e he (by simpa using heq)
      have hfilter := hperm.filter fun e => e.1 = "kind"
      rw [List.filter_cons_of_pos (by simp [kindSlot, Slot.required]), hnone, hvalue] at hfilter
      exact List.perm_singleton.mp hfilter
    have hothers : (fields.filter fun e => e.1 ≠ "kind").Perm rest := by
      have hall : rest.filter (fun e => e.1 ≠ "kind") = rest :=
        List.filter_eq_self.mpr fun e he => by simpa using hfree e he
      have hfilter := hperm.filter fun e => e.1 ≠ "kind"
      rwa [List.filter_cons_of_neg (by simp [kindSlot, Slot.required]), hall] at hfilter
    refine ⟨.record (fields.filter fun e => e.1 ≠ "kind"), ?_, ⟨_, rest, rfl, hothers, hrest⟩, ?_⟩
    · rw [Value.toTree_record, Value.toTree_record, untag?]
      simp only [List.filter_map, Function.comp_def, Option.some.injEq, hkinds, ne_eq,
        decide_not, List.map_cons, List.map_nil, Value.toTree]
      rfl
    · rw [Value.depth_record, Value.depth_record]
      refine Nat.succ_le_succ (Value.fieldsDepth_le_iff.mpr fun e he => ?_)
      exact Value.fieldsDepth_le_iff.mp (Nat.le_refl _) e (List.mem_of_mem_filter he)

theorem reads {m : Member} (hm : m.WellFormed) : Reads n Member.read m.Encodes m := by
  intro s v hv hn hd
  have hreadable := Tree.readable_toTree hd
  cases m with
  | method m =>
    obtain ⟨w, huntag, hw, hle⟩ := exists_untag? (nodup_callable "method" m) hv
    have hread := Callable.reads hm { s with held := true } w hw (Nat.le_trans hle hn)
      (Nat.le_trans hle hd)
    simp [Member.read, hreadable, huntag, hread]
  | constructor m =>
    obtain ⟨w, huntag, hw, hle⟩ := exists_untag? (nodup_callable "constructor" m) hv
    have hread := Callable.reads hm { s with held := true } w hw (Nat.le_trans hle hn)
      (Nat.le_trans hle hd)
    simp [Member.read, hreadable, huntag, hread]
  | field x =>
    obtain ⟨w, huntag, hw, hle⟩ := exists_untag? (nodup_variable "field" x) hv
    have hread := Variable.reads hm { s with held := true } w hw (Nat.le_trans hle hn)
      (Nat.le_trans hle hd)
    simp [Member.read, hreadable, huntag, hread]

end Member

theorem TypeDecl.reads {d : TypeDecl} (hd : d.WellFormed) : Reads n TypeDecl.read d.Encodes d := by
  intro s v hv hn hdepth
  obtain ⟨f, hf, hhas⟩ := Fields.exists_of? d.nodup_slots hv hdepth
  simp only [slots, List.forall_mem_cons] at hhas
  obtain ⟨hname, hkind, hmodifiers, hsuperclass, hinterfaces, hannotations, hmembers, -⟩ := hhas
  have hf : Fields.of?
      ["name", "kind", "modifiers", "superclass", "interfaces", "annotations", "members"] s
      v.toTree = some f := hf
  have hname := hname.required hn d.name.reads
  have hkind : f.optional "kind" .class DeclKind.read = some d.kind :=
    hkind.optional hn d.kind.reads id
  have hmodifiers : f.optional "modifiers" .empty Modifiers.read = some d.modifiers :=
    hmodifiers.optional hn d.modifiers.reads id
  have hsuperclass : f.optional "superclass" none (Reader.nullable TypeText.read) =
      some d.superclass := by
    refine hsuperclass.optional hn ?_ id
    cases d.superclass with
    | none => exact Reads.nullable_none _
    | some t => exact Reads.nullable_some t.reads (fun h => by cases h)
  have hinterfaces : f.optional "interfaces" [] (Reader.list TypeText.read) = some d.interfaces :=
    hinterfaces.optional hn (Reads.list_map (fun t => t.reads) d.interfaces) id
  have hannotations : f.optional "annotations" [] (Reader.list AnnotationUse.read) =
      some d.annotations :=
    hannotations.optional hn (Reads.list fun a ha => AnnotationUse.reads (hd.1 a ha)) id
  have hmembers : f.optional "members" [] (Reader.list Member.read) = some d.members :=
    hmembers.optional hn (Reads.list fun m hm => Member.reads (hd.2 m hm)) id
  simp [TypeDecl.read, hf, hname, hkind, hmodifiers, hsuperclass, hinterfaces, hannotations,
    hmembers]

theorem Universe.reads {u : Universe} (hu : u.WellFormed) : Reads n Universe.read u.Encodes u := by
  intro s v hv hn hd
  obtain ⟨f, hf, hhas⟩ := Fields.exists_of? u.nodup_slots hv hd
  simp only [slots, List.forall_mem_cons] at hhas
  obtain ⟨htypes, hrounds, -⟩ := hhas
  have hf : Fields.of? ["types", "rounds"] s v.toTree = some f := hf
  have htypes : f.optional "types" [] (Reader.list TypeDecl.read) = some u.types :=
    htypes.optional hn (Reads.list fun d hd => TypeDecl.reads (hu d hd)) id
  have hrounds : f.optional "rounds" none
      (Reader.nullable (Reader.list (Reader.list Reader.text))) = some u.rounds := by
    refine hrounds.optional hn ?_ id
    cases u.rounds with
    | none => exact Reads.nullable_none _
    | some rounds =>
      have hround (round : List String) :
          Reads n (Reader.list Reader.text) (· = .texts round) round :=
        Reads.list_map Reads.text round
      exact Reads.nullable_some (Reads.list_map hround rounds) (fun h => by cases h)
  simp [Universe.read, hf, htypes, hrounds]

/-! ## Documents as texts -/

/-- Every text that holds the document of the value is read as `a`, and so are both layouts. -/
def Json.Reader.ReadsBack {α : Type} (r : Reader α) (v : Value) (a : α) : Prop :=
  r.run v.compact = some a ∧ r.run v.pretty = some a ∧
    ∀ text, Tree.parse text = some v.toTree → r.run text = some a

theorem Json.Reads.readsBack {α : Type} {r : Reader α} {P : Value → Prop} {a : α} {v : Value}
    (h : Reads v.depth r P a) (hP : Exactly P) (hv : P v) (hd : v.depth ≤ maxNesting) :
    r.ReadsBack v a :=
  ⟨h.run hv hd (Tree.parse_compact (hP v hv)), h.run hv hd (Tree.parse_pretty (hP v hv)),
    fun _ htext => h.run hv hd htext⟩

theorem Json.Yields.run {α : Type} {r : Reader α} {Q : α → Prop} (h : Yields r Q) {text : String}
    {a : α} (hread : r.run text = some a) : Q a := by
  obtain ⟨t, -, ht⟩ := Option.bind_eq_some_iff.mp hread
  exact h Scope.top t a ht

/-- The value of a declaration is one of its documents. Every document of a well-formed declaration,
with the fields of each record in any order and without any of those that hold their defaults, is read
back as the same declaration if it is not nested too deep. The same holds for a universe, and nothing
is read that is not well-formed. -/
theorem documents_read_back :
    (∀ d : TypeDecl, d.WellFormed → d.Encodes d.toValue ∧
      ∀ v, d.Encodes v → v.depth ≤ maxNesting → TypeDecl.read.ReadsBack v d) ∧
    (∀ u : Universe, u.WellFormed → u.Encodes u.toValue ∧
      ∀ v, u.Encodes v → v.depth ≤ maxNesting → Universe.read.ReadsBack v u) ∧
    (∀ text d, TypeDecl.read.run text = some d → d.WellFormed) ∧
    ∀ text u, Universe.read.run text = some u → u.WellFormed := by
  refine ⟨fun d hd => ⟨d.encodes_toValue, fun v hv hdepth => ?_⟩,
    fun u hu => ⟨u.encodes_toValue, fun v hv hdepth => ?_⟩,
    fun _ _ hread => TypeDecl.yields.run hread, fun _ _ hread => Universe.yields.run hread⟩
  · exact (TypeDecl.reads hd).readsBack (TypeDecl.exactly hd) hv hdepth
  · exact (Universe.reads hu).readsBack (Universe.exactly hu) hv hdepth

def markedClock : TypeDecl where
  name := ⟨"a.Clock"⟩
  kind := .class
  modifiers := .empty
  superclass := none
  interfaces := []
  annotations := [⟨⟨"a.Marked"⟩, [("at", .array [.int (-1), .char '"'])]⟩]
  members := [.method ⟨"now", .empty, .void, [], []⟩]

def valueBeforeKind (kind : Constant.Kind) (v : Value) : Value :=
  .record [("value", v), ("kind", .text kind.keyword)]

theorem tagged_valueBeforeKind {kind : Constant.Kind} {Holds : Value → Prop} {v : Value}
    (h : Holds v) : Constant.Tagged kind Holds (valueBeforeKind kind v) :=
  ⟨_, _, rfl, List.Perm.swap _ _ _, .present rfl (.present h .nil)⟩

def markedAt : Value :=
  valueBeforeKind .array
    (.list [valueBeforeKind .int (.int (-1)), valueBeforeKind .char (.text "\"")])

def clockFields : List (String × Value) :=
  [("name", .text "a.Clock"),
    ("annotations", .list
      [.record [("values", .record [("at", markedAt)]), ("type", .text "a.Marked")]]),
    ("members", .list [.record [("name", .text "now"), ("kind", .text "method")]])]

def clockDocument : Value := .record clockFields.reverse

theorem clockDocument_read_back :
    markedClock.WellFormed ∧ markedClock.Encodes clockDocument ∧
      TypeDecl.read.ReadsBack clockDocument markedClock ∧
      Universe.read.ReadsBack (.record [("types", .list [clockDocument])])
        ⟨[markedClock], none⟩ := by
  have hwell : markedClock.WellFormed := by
    simp [markedClock, TypeDecl.WellFormed, AnnotationUse.WellFormed, Member.WellFormed,
      Callable.WellFormed, Constant.WellFormed, Constant.ItemsWellFormed, Dict.Sorted, Dict.keys,
      minInt64, maxInt64]
  have hmember : Member.Encodes (.method ⟨"now", .empty, .void, [], []⟩)
      (.record [("name", .text "now"), ("kind", .text "method")]) :=
    ⟨_, _, rfl, List.Perm.swap _ _ _, .present rfl (.present rfl (.absent rfl (.absent rfl
      (.absent rfl (.absent rfl .nil)))))⟩
  have harray : Constant.Encodes (.array [.int (-1), .char '"']) markedAt := by
    rw [Constant.encodes_array]
    refine tagged_valueBeforeKind ⟨_, rfl, .cons ?_ (.cons ?_ .nil)⟩
    · rw [Constant.Encodes]
      exact tagged_valueBeforeKind rfl
    · rw [Constant.Encodes]
      exact tagged_valueBeforeKind rfl
  have hvalues : DictOf Constant.Encodes [("at", .array [.int (-1), .char '"'])]
      (.record [("at", markedAt)]) :=
    ⟨_, _, rfl, List.Perm.refl _, .cons ⟨rfl, harray⟩ .nil⟩
  have hannotation : AnnotationUse.Encodes ⟨⟨"a.Marked"⟩, [("at", .array [.int (-1), .char '"'])]⟩
      (.record [("values", .record [("at", markedAt)]), ("type", .text "a.Marked")]) :=
    ⟨_, _, rfl, List.Perm.swap _ _ _, .present rfl (.present hvalues .nil)⟩
  have hencodes : markedClock.Encodes clockDocument := by
    refine ⟨_, clockFields, rfl, List.reverse_perm _, ?_⟩
    exact .present rfl (.absent rfl (.absent rfl (.absent rfl (.absent rfl
      (.present ⟨_, rfl, .cons hannotation .nil⟩
        (.present ⟨_, rfl, .cons hmember .nil⟩ .nil))))))
  have huniverse : Universe.Encodes ⟨[markedClock], none⟩
      (.record [("types", .list [clockDocument])]) :=
    ⟨_, _, rfl, List.Perm.refl _, .present ⟨_, rfl, .cons hencodes .nil⟩ (.absent rfl .nil)⟩
  obtain ⟨hdecl, huni, -, -⟩ := documents_read_back
  refine ⟨hwell, hencodes, (hdecl markedClock hwell).2 _ hencodes (by decide), ?_⟩
  exact (huni ⟨[markedClock], none⟩ (by simpa [Universe.WellFormed] using hwell)).2 _ huniverse
    (by decide)

end Provisioning
