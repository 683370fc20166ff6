import Provisioning.Proofs.Source.WrittenConstants

/-! # Literals in annotations

A place is a literal of a text together with what stands behind it, so reading
from a place tells whether the literal is what it was written for. The places of
an annotation are found through lists and members at any depth. What stands
behind them is passed on from the outside, since it decides where a number ends.
-/

namespace Provisioning.Source

open Text (join)

/-! ## Places -/

abbrev Place := Literal × List Char

def Place.text (x : Place) : List Char := x.1.source.toList ++ x.2

namespace Naming

variable (n : Naming)

mutual

def placesOf : Constant → List Char → List Place
  | .int i, rest => [(.int i, rest)]
  | .char c, rest => [(.char c, rest)]
  | .string s, rest => [(.text s, rest)]
  | .array [item], rest => placesOf item rest
  | .array items, rest => placesOfItems items ('\x7d' :: rest)
  | .nested _ values, rest => placesOfValues values (')' :: rest)
  | _, _ => []

def placesOfItems : List Constant → List Char → List Place
  | [], _ => []
  | k :: more, rest => placesOf k (behind (more.map n.constant) rest) ++ placesOfItems more rest

def placesOfValues : List (String × Constant) → List Char → List Place
  | [], _ => []
  | (_, k) :: more, rest =>
    placesOf k (behind (more.map n.member) rest) ++ placesOfValues more rest

end

def places (a : AnnotationUse) : List Place := n.placesOfValues a.values [')']

end Naming

/-- The places hold the literals and lie in the text before `rest`, one behind the other. If numbers
and names end before `rest`, they end at the end of each literal. -/
structure Placed (text rest : List Char) (literals : List Literal) (places : List Place) :
    Prop where
  literals : places.map Prod.fst = literals
  inside : ∀ x ∈ places, x.text <:+ text ++ rest ∧ rest <:+ x.2
  ordered : places.Pairwise fun x y => y.text <:+ x.2
  ends : endsBefore rest = true → ∀ x ∈ places, endsBefore x.2 = true

namespace Placed

variable {s t rest : List Char} {ls ms : List Literal} {xs ys : List Place}

theorem empty (s rest : List Char) : Placed s rest [] [] := ⟨rfl, by simp, by simp, by simp⟩

theorem single (l : Literal) (rest : List Char) : Placed l.source.toList rest [l] [(l, rest)] :=
  ⟨rfl, by simp [Place.text], by simp, by simp⟩

theorem append (hs : Placed s (t ++ rest) ls xs) (ht : Placed t rest ms ys)
    (hends : endsBefore rest = true → endsBefore (t ++ rest) = true) :
    Placed (s ++ t) rest (ls ++ ms) (xs ++ ys) := by
  refine ⟨?_, ?_, ?_, ?_⟩
  · rw [List.map_append, hs.literals, ht.literals]
  · intro x hx
    rw [List.append_assoc]
    rcases List.mem_append.mp hx with hx | hx
    · obtain ⟨hin, hrest⟩ := hs.inside x hx
      exact ⟨hin, (List.suffix_append t rest).trans hrest⟩
    · obtain ⟨hin, hrest⟩ := ht.inside x hx
      exact ⟨hin.trans (List.suffix_append s _), hrest⟩
  · refine List.pairwise_append.mpr ⟨hs.ordered, ht.ordered, ?_⟩
    intro x hx y hy
    exact (ht.inside y hy).1.trans (hs.inside x hx).2
  · intro hrest x hx
    rcases List.mem_append.mp hx with hx | hx
    · -- what stands behind the first part begins with the second one
      exact hs.ends (hends hrest) x hx
    · exact ht.ends hrest x hx

theorem behind_text (s : List Char) (h : Placed t rest ls xs) : Placed (s ++ t) rest ls xs := by
  refine ⟨h.literals, fun x hx => ?_, h.ordered, h.ends⟩
  rw [List.append_assoc]
  exact (h.inside x hx).imp_left fun hin => hin.trans (List.suffix_append s _)

/-- A sign behind the text is not part of any literal. -/
theorem before_sign {c : Char} (hc : TypeName.isNameChar c = false)
    (h : Placed s (c :: rest) ls xs) : Placed (s ++ [c]) rest ls xs := by
  have happend := append h (empty [c] rest) fun _ => by simp [endsBefore, hc]
  simpa using happend

theorem item {texts : List String} (hs : Placed s (Naming.behind texts rest) ls xs)
    (ht : Placed (join ", " texts).toList rest ms ys) :
    Placed (s ++ Naming.behind texts []) rest (ls ++ ms) (xs ++ ys) := by
  rw [Naming.behind_append] at hs
  cases texts with
  | nil => exact append hs ht id
  | cons u more =>
    have hbehind : Naming.behind (u :: more) [] =
        ", ".toList ++ (join ", " (u :: more)).toList := by
      simp [Naming.behind]
    have hcomma : TypeName.isNameChar ',' = false := by decide
    rw [hbehind] at hs ⊢
    exact append hs (behind_text _ ht) fun _ => by simp [endsBefore, hcomma]

end Placed

namespace Naming

variable (n : Naming)

mutual

theorem placed_constant (k : Constant) (hk : k.WellFormed) (rest : List Char) :
    Placed (n.constant k).toList rest k.literals (n.placesOf k rest) := by
  cases k with
  | bool b => exact .empty _ _
  | int i =>
    rw [constant_int]
    exact .single _ _
  | char c =>
    rw [constant_char]
    exact .single _ _
  | string s =>
    rw [constant_string]
    exact .single _ _
  | type t => exact .empty _ _
  | enum t constant => exact .empty _ _
  | array items =>
    match items with
    | [] => exact .empty _ _
    | [item] =>
      -- written like the item, so no sign separates it from what follows
      have hplaced := placed_constant item hk.1 rest
      rwa [← List.append_nil item.literals] at hplaced
    | a :: b :: more =>
      have hplaced := (placed_items (a :: b :: more) hk ('\x7d' :: rest)).behind_text "\x7b".toList
      rw [constant_array n (by simp), String.toList_append, String.toList_append]
      exact hplaced.before_sign (by decide)
  | nested t values =>
    obtain ⟨hsorted, hvalues⟩ := hk
    rw [constant_nested n t hsorted]
    exact placed_annotated _ values hvalues rest

theorem placed_annotated (name : String) (values : List (String × Constant))
    (h : Constant.EntriesWellFormed values) (rest : List Char) :
    Placed (annotated name (values.map fun e => (e.1, n.constant e.2))).toList rest
      (Constant.valueLiterals values) (n.placesOfValues values (')' :: rest)) := by
  match values with
  | [] => exact .empty _ _
  | (member, k) :: more =>
    obtain ⟨label, -, htext⟩ := n.exists_label name (member, k) more
    have hmembers := (placed_constant k h.1 _).item (placed_values more h.2 (')' :: rest))
    rw [htext]
    exact (hmembers.behind_text _).before_sign (by decide)

theorem placed_items (items : List Constant) (h : Constant.ItemsWellFormed items)
    (rest : List Char) :
    Placed (join ", " (items.map n.constant)).toList rest (Constant.itemLiterals items)
      (n.placesOfItems items rest) := by
  cases items with
  | nil => exact .empty _ _
  | cons k more =>
    rw [List.map_cons, toList_join_cons]
    exact (placed_constant k h.1 _).item (placed_items more h.2 rest)

theorem placed_values (values : List (String × Constant))
    (h : Constant.EntriesWellFormed values) (rest : List Char) :
    Placed (join ", " (values.map n.member)).toList rest (Constant.valueLiterals values)
      (n.placesOfValues values rest) := by
  cases values with
  | nil => exact .empty _ _
  | cons e more =>
    obtain ⟨name, k⟩ := e
    rw [List.map_cons, toList_join_cons]
    have hplaced := ((placed_constant k h.1 _).item (placed_values more h.2 rest)).behind_text
      (name ++ " = ").toList
    rw [Constant.valueLiterals, placesOfValues]
    simpa [member] using hplaced

end

end Naming

/-! ## Written annotations -/

/-- Whether the language has such a constant: only characters can be out of range. -/
def Literal.InRange : Literal → Prop
  | .char c => c.toNat ≤ maxCharConstant
  | _ => True

namespace Naming

variable (n : Naming) (a : AnnotationUse)

def LiteralsRead : Prop := ∀ x ∈ n.places a, x.1.InRange → Literal.read x.text = some x

variable {a}

theorem placed_mark (ha : a.WellFormed) :
    Placed (n.mark (.ofUse a)).toList [] a.literals (n.places a) := by
  rw [mark_ofUse n ha.1]
  exact n.placed_annotated _ a.values (Constant.entriesWellFormed_iff.mpr ha.2) []

theorem read_place_iff (ha : a.WellFormed) {x : Place} (hx : x ∈ n.places a) :
    Literal.read x.text = some x ↔ x.1.Readable :=
  Literal.read_source ((n.placed_mark ha).ends rfl x hx) x.1

theorem literalsRead_iff (ha : a.WellFormed) : n.LiteralsRead a ↔
    (∀ i, .int i ∈ a.literals → minInt32 ≤ i ∧ i ≤ maxInt32) ∧ .char '\r' ∉ a.literals := by
  have hread : n.LiteralsRead a ↔ ∀ l ∈ a.literals, l.InRange → l.Readable := by
    rw [← (n.placed_mark ha).literals, List.forall_mem_map]
    exact forall₂_congr fun x hx => imp_congr_right fun _ => n.read_place_iff ha hx
  rw [hread]
  constructor
  · intro h
    refine ⟨fun i hi => h _ hi trivial, fun hr => ?_⟩
    exact (h _ hr (show '\r'.toNat ≤ maxCharConstant by decide)).2 rfl
  · rintro ⟨hint, hchar⟩ l hl hrange
    cases l with
    | int i => exact hint i hl
    | char c => exact ⟨hrange, fun hc => hchar (hc ▸ hl)⟩
    | text s => trivial

theorem onLine_mark_iff (ha : a.WellFormed) (h : ∀ name ∈ a.names, OnLine name.toList) :
    OnLine (n.mark (.ofUse a)).toList ↔ .char '\r' ∉ a.literals := by
  obtain ⟨htype, hnames⟩ := List.forall_mem_cons.mp h
  have hmembers : ∀ e ∈ a.values, OnLine e.1.toList := fun e he =>
    hnames e.1 (Constant.mem_valueNames he)
  rw [mark_ofUse n ha.1, n.onLine_annotated_iff (n.onLine_guess htype) hmembers]
  exact n.onLine_values_iff a.values (Constant.entriesWellFormed_iff.mpr ha.2) hnames

/-- The literals of an annotation stand in its text in their order, without overlap. Each is read
at its place, and what is behind it is left, exactly if it can be read back. So all of them are read
exactly if the whole numbers fit 32 bits and no character is a carriage return; and if the names are
on one line, the annotation is on one line exactly if no character is a carriage return. -/
theorem annotation_literals_read (n : Naming) {a : AnnotationUse} (ha : a.WellFormed) :
    ((n.places a).map Prod.fst = a.literals ∧
      (∀ x ∈ n.places a, x.text <:+ (n.mark (.ofUse a)).toList) ∧
      (n.places a).Pairwise fun x y => y.text <:+ x.2) ∧
    (∀ x ∈ n.places a, Literal.read x.text = some x ↔ x.1.Readable) ∧
    (n.LiteralsRead a ↔
      (∀ i, .int i ∈ a.literals → minInt32 ≤ i ∧ i ≤ maxInt32) ∧ .char '\r' ∉ a.literals) ∧
    ((∀ name ∈ a.names, OnLine name.toList) →
      (OnLine (n.mark (.ofUse a)).toList ↔ .char '\r' ∉ a.literals)) := by
  have hplaced := n.placed_mark ha
  refine ⟨⟨hplaced.literals, fun x hx => ?_, hplaced.ordered⟩,
    fun x hx => n.read_place_iff ha hx, n.literalsRead_iff ha, n.onLine_mark_iff ha⟩
  simpa using (hplaced.inside x hx).1

def bare : Naming := ⟨"app", [], [], []⟩

def limits : AnnotationUse :=
  ⟨⟨"app.Limits"⟩, [("range", .array [.int (-2147483648), .int 2147483647]),
    ("signs", .nested ⟨"app.Signs"⟩ [("value", .array [.char '\'', .char '\n'])])]⟩

theorem limits_read :
    limits.WellFormed ∧ (∀ name ∈ limits.names, OnLine name.toList) ∧
      bare.mark (.ofUse limits) =
        "@Limits(range = \x7b-2147483648, 2147483647\x7d, signs = @Signs(\x7b'\\'', '\\n'\x7d))" ∧
      (bare.places limits).map Prod.fst =
        [.int (-2147483648), .int 2147483647, .char '\'', .char '\n'] ∧
      bare.LiteralsRead limits ∧ OnLine (bare.mark (.ofUse limits)).toList := by
  have hsorted : Dict.Sorted limits.values := List.pairwise_pair.mpr (by decide)
  have hwell : limits.WellFormed := by
    refine ⟨hsorted, ?_⟩
    simp [limits, Constant.WellFormed, Constant.ItemsWellFormed, Constant.EntriesWellFormed,
      Dict.Sorted, Dict.keys, Json.minInt64, Json.maxInt64]
  have hnames : ∀ name ∈ limits.names, OnLine name.toList := by decide
  have hliterals : limits.literals =
    [.int (-2147483648), .int 2147483647, .char '\'', .char '\n'] := rfl
  have hreturn : .char '\r' ∉ limits.literals := by decide
  obtain ⟨⟨hplaces, -, -⟩, -, hread, hline⟩ := annotation_literals_read bare hwell
  refine ⟨hwell, hnames, by decide +kernel, hplaces.trans hliterals, hread.mpr ⟨?_, hreturn⟩,
    (hline hnames).mpr hreturn⟩
  intro i hi
  have hcases : i = -2147483648 ∨ i = 2147483647 := by simpa [hliterals] using hi
  rcases hcases with rfl | rfl <;> decide

/-- A number beyond 32 bits has no suffix, and a carriage return breaks its literal in two lines. -/
theorem limits_misread :
    let far : AnnotationUse := ⟨⟨"app.Limit"⟩, [("value", .int 3000000000)]⟩
    let sign : AnnotationUse := ⟨⟨"app.Sign"⟩, [("value", .char '\r')]⟩
    (far.WellFormed ∧ bare.mark (.ofUse far) = "@Limit(3000000000)" ∧ ¬ bare.LiteralsRead far) ∧
      sign.WellFormed ∧ (∀ name ∈ sign.names, OnLine name.toList) ∧
      bare.mark (.ofUse sign) = "@Sign('\r')" ∧ ¬ bare.LiteralsRead sign ∧
      ¬ OnLine (bare.mark (.ofUse sign)).toList := by
  intro far sign
  have hfar : far.WellFormed := by
    simp [far, AnnotationUse.WellFormed, Constant.WellFormed, Dict.Sorted, Dict.keys,
      Json.minInt64, Json.maxInt64]
  have hsign : sign.WellFormed := by
    simp [sign, AnnotationUse.WellFormed, Constant.WellFormed, Dict.Sorted, Dict.keys]
  refine ⟨⟨hfar, by decide +kernel, fun h => ?_⟩, hsign, by decide, by decide +kernel,
    fun h => ?_, by decide +kernel⟩
  · have hread := h (.int 3000000000, [')']) (List.mem_singleton_self _) trivial
    exact absurd hread (by decide +kernel)
  · have hread := h (.char '\r', [')']) (List.mem_singleton_self _)
      (show '\r'.toNat ≤ maxCharConstant by decide)
    exact absurd hread (by decide +kernel)

end Naming

end Provisioning.Source
