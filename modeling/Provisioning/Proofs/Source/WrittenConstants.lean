import Provisioning.Proofs.Model.Documents
import Provisioning.Proofs.Source.LiteralReading
import Provisioning.Proofs.Source.Mentions
import Provisioning.Proofs.Source.Segments
import Provisioning.Source.Layout

/-! # Written constants

How the constants of annotations are written, as one text for each of them: lists
with commas between the items, annotations with their members in order. Names
are taken over as they are; apart from them, only a carriage return among the
characters of a constant can end a line.
-/

namespace Provisioning

open Source (Literal)

/-! ## The literals and names of an annotation -/

namespace Constant

mutual

def literals : Constant → List Literal
  | .int n => [.int n]
  | .char c => [.char c]
  | .string s => [.text s]
  | .array items => itemLiterals items
  | .nested _ values => valueLiterals values
  | _ => []

def itemLiterals : List Constant → List Literal
  | [] => []
  | k :: rest => literals k ++ itemLiterals rest

def valueLiterals : List (String × Constant) → List Literal
  | [] => []
  | (_, k) :: rest => literals k ++ valueLiterals rest

end

mutual

/-- The names that are written as they are: those of annotations, members and enum constants. -/
def names : Constant → List String
  | .enum _ constant => [constant]
  | .array items => itemNames items
  | .nested t values => t.erasure :: valueNames values
  | _ => []

def itemNames : List Constant → List String
  | [] => []
  | k :: rest => names k ++ itemNames rest

def valueNames : List (String × Constant) → List String
  | [] => []
  | (name, k) :: rest => name :: (names k ++ valueNames rest)

end

theorem mem_valueNames {values : List (String × Constant)} {e : String × Constant}
    (h : e ∈ values) : e.1 ∈ valueNames values := by
  induction values with
  | nil => cases h
  | cons f rest ih =>
    rcases List.mem_cons.mp h with rfl | h
    · exact List.mem_cons_self
    · exact List.mem_cons_of_mem _ (List.mem_append_right _ (ih h))

end Constant

namespace AnnotationUse

def literals (a : AnnotationUse) : List Literal := Constant.valueLiterals a.values

def names (a : AnnotationUse) : List String := a.type.erasure :: Constant.valueNames a.values

end AnnotationUse

namespace Source

open Text (join)

/-! ## Written constants -/

namespace Naming

variable (n : Naming)

def constant (k : Constant) : String := n.code (constantCode k)

def member (e : String × Constant) : String := e.1 ++ " = " ++ n.constant e.2

theorem codeParts_append (as bs : Code) :
    n.codeParts (as ++ bs) = n.codeParts as ++ n.codeParts bs := by
  induction as with
  | nil => simp [codeParts]
  | cons part rest ih => simp [codeParts, ih, String.append_assoc]

theorem codeParts_commaJoin (items : List Code) :
    n.codeParts (Code.commaJoin items) = join ", " (items.map n.codeParts) := by
  fun_induction Code.commaJoin items with
  | case1 => rfl
  | case2 c => rfl
  | case3 c rest hne ih =>
    cases rest with
    | nil => exact absurd rfl hne
    | cons d more =>
      simp [codeParts_append, codeParts, codePart, ih, join, String.append_assoc]

theorem itemsCode_eq_map (items : List Constant) : itemsCode items = items.map constantCode := by
  induction items with
  | nil => rfl
  | cons k rest ih => rw [itemsCode, ih, List.map_cons]

theorem entriesCode_eq_map (values : List (String × Constant)) :
    entriesCode values = values.map fun e => (e.1, constantCode e.2) := by
  induction values with
  | nil => rfl
  | cons e rest ih => rw [entriesCode, ih, List.map_cons]

theorem memberTexts_eq_map (members : List (String × Code)) :
    n.memberTexts members = members.map fun m => (m.1, n.code m.2) := by
  induction members with
  | nil => rfl
  | cons m rest ih =>
    rw [memberTexts, ih, List.map_cons]
    rfl

theorem memberTexts_ofList {values : List (String × Constant)} (h : Dict.Sorted values) :
    n.memberTexts (Dict.ofList (entriesCode values)) =
      values.map fun e => (e.1, n.constant e.2) := by
  have hsorted : Dict.Sorted (entriesCode values) := by
    have hkeys : Dict.keys (entriesCode values) = Dict.keys values := by
      simp [Dict.keys, entriesCode_eq_map]
    rw [Dict.Sorted, hkeys]
    exact h
  rw [Dict.ofList_of_perm (List.Perm.refl _) hsorted, memberTexts_eq_map, entriesCode_eq_map,
    List.map_map]
  rfl

theorem constant_int (i : Int) : n.constant (.int i) = (Literal.int i).source := by
  simp [constant, constantCode, code, codeParts, codePart, Literal.source]

theorem constant_char (c : Char) : n.constant (.char c) = (Literal.char c).source := by
  simp [constant, constantCode, code, codeParts, codePart, Literal.source]

theorem constant_string (s : String) : n.constant (.string s) = (Literal.text s).source := by
  simp [constant, constantCode, code, codeParts, codePart, Literal.source]

theorem constant_array {items : List Constant} (h : items.length ≠ 1) :
    n.constant (.array items) = "\x7b" ++ join ", " (items.map n.constant) ++ "\x7d" := by
  have hcode : constantCode (.array items) =
      .text "\x7b" :: (Code.commaJoin (itemsCode items) ++ [.text "\x7d"]) := by
    match items with
    | [] => rfl
    | [_] => exact absurd rfl h
    | _ :: _ :: _ => rfl
  have hcomp : n.codeParts ∘ constantCode = n.constant := rfl
  rw [constant, code, hcode, codeParts, codeParts_append, codeParts_commaJoin, itemsCode_eq_map,
    List.map_map, hcomp]
  simp [codeParts, codePart, String.append_assoc]

theorem constant_nested (t : TypeText) {values : List (String × Constant)}
    (h : Dict.Sorted values) : n.constant (.nested t values) =
      annotated (n.className (.guess t.erasure)) (values.map fun e => (e.1, n.constant e.2)) := by
  rw [constant, constantCode, code, codeParts, codeParts, codePart, memberTexts_ofList n h]
  simp

theorem mark_ofUse {a : AnnotationUse} (h : Dict.Sorted a.values) : n.mark (.ofUse a) =
    annotated (n.className (.guess a.type.erasure))
      (a.values.map fun e => (e.1, n.constant e.2)) := by
  rw [mark, Mark.toPart, Mark.ofUse, codePart, memberTexts_ofList n h]

def behind : List String → List Char → List Char
  | [], rest => rest
  | texts, rest => ", ".toList ++ (join ", " texts).toList ++ rest

theorem toList_join_cons (s : String) (texts : List String) :
    (join ", " (s :: texts)).toList = s.toList ++ behind texts [] := by
  cases texts with
  | nil => simp [join, behind]
  | cons t more => simp [join, behind]

theorem behind_append (texts : List String) (rest : List Char) :
    behind texts rest = behind texts [] ++ rest := by
  cases texts with
  | nil => rfl
  | cons t more => simp [behind]

/-- The text of an annotation with members. Its only member stands without its name when that is
`value`. -/
theorem exists_label (name : String) (e : String × Constant) (more : List (String × Constant)) :
    ∃ label, (label = "" ∨ label = e.1 ++ " = ") ∧
      (annotated name ((e :: more).map fun e => (e.1, n.constant e.2))).toList =
        '@' :: name.toList ++ '(' :: label.toList ++
          ((n.constant e.2).toList ++ behind (more.map n.member) []) ++ [')'] := by
  obtain ⟨member, k⟩ := e
  cases more with
  | nil =>
    by_cases hv : member = "value"
    · exact ⟨"", .inl rfl, by simp [annotated, hv, behind]⟩
    · exact ⟨member ++ " = ", .inr rfl, by simp [annotated, hv, behind]⟩
  | cons e more =>
    have hmember : n.member = fun e => e.1 ++ " = " ++ n.constant e.2 := rfl
    exact ⟨member ++ " = ", .inr rfl,
      by simp [annotated, join, behind, hmember, Function.comp_def]⟩

end Naming

/-! ## One line -/

theorem ClassName.mem_canonical_of_mem_simpleNames {c : ClassName} {s : String} {d : Char}
    (hs : s ∈ c.simpleNames) (hd : d ∈ s.toList) (hne : d ≠ '.') : d ∈ c.canonical.toList := by
  have hdotted : d ∈ c.dotted.toList := (Text.mem_join_iff hne _).mpr ⟨s, hs, hd⟩
  rw [canonical]
  split
  · exact hdotted
  · rw [String.toList_append]
    exact List.mem_append_right _ hdotted

theorem onLine_of_ne_point {s : List Char} (h : ∀ d ∈ s, d ≠ '.' → isLineEnd d = false) :
    OnLine s := by
  intro d hd
  by_cases hne : d = '.'
  · rw [hne]
    rfl
  · exact h d hd hne

namespace Naming

variable (n : Naming)

theorem onLine_className {c : ClassName} (h : OnLine c.canonical.toList) :
    OnLine (n.className c).toList := by
  have hjoin : ∀ names, (∀ s ∈ names, s ∈ c.simpleNames) → OnLine (join "." names).toList := by
    intro names hnames
    apply onLine_of_ne_point
    intro d hd hne
    obtain ⟨s, hs, hd⟩ := (Text.mem_join_iff hne _).mp hd
    exact h d (ClassName.mem_canonical_of_mem_simpleNames (hnames s hs) hd hne)
  -- all three forms of a name are made of its simple names or are the canonical one
  unfold className
  generalize (if c.package = n.package then commonStart c.simpleNames n.enclosing else 0) = common
  dsimp only
  split
  · exact hjoin _ fun s hs => List.mem_of_mem_drop hs
  · split
    · exact hjoin _ fun s hs => hs
    · exact h

theorem onLine_guess {name : String} (h : OnLine name.toList) :
    OnLine (n.className (.guess name)).toList := by
  apply onLine_className
  apply onLine_of_ne_point
  intro d hd hne
  exact h d ((ClassName.mem_canonical_guess_iff hne name).mp hd)

theorem onLine_behind (texts : List String) :
    OnLine (behind texts []) ↔ OnLine (join ", " texts).toList := by
  cases texts with
  | nil => simp [behind, join]
  | cons t more => simp [behind, isLineEnd]

theorem onLine_join_iff (texts : List String) :
    OnLine (join ", " texts).toList ↔ ∀ s ∈ texts, OnLine s.toList := by
  induction texts with
  | nil => simp [join]
  | cons s rest ih =>
    rw [toList_join_cons, onLine_append, onLine_behind, List.forall_mem_cons, ih]

theorem onLine_of_isNameChar {s : List Char} (h : ∀ c ∈ s, TypeName.isNameChar c = true) :
    OnLine s := by
  intro c hc
  have hchar := h c hc
  have hne : ∀ d, TypeName.isNameChar d = false → c ≠ d := by
    rintro d hd rfl
    rw [hchar] at hd
    cases hd
  simp [isLineEnd, hne '\n' (by decide), hne '\r' (by decide)]

theorem typeNames_eq_map (ts : List TypeName) : n.typeNames ts = ts.map n.typeName := by
  induction ts with
  | nil => rfl
  | cons t rest ih => rw [typeNames, ih, List.map_cons]

/-- The reader of types takes characters of names only, so a type is written on one line. -/
theorem onLine_typeName (text : String) : OnLine (n.typeName (.parse text)).toList := by
  refine TypeName.parse_induction (P := fun t => OnLine (n.typeName t).toList)
    ?_ ?_ ?_ ?_ ?_ ?_ text
  · have hall : ∀ keyword ∈ TypeName.keywords, OnLine keyword.toList := by decide
    exact hall
  · intro name hname
    exact n.onLine_guess (onLine_of_isNameChar hname)
  · intro name arguments hname harguments
    have hraw := n.onLine_guess (onLine_of_isNameChar hname)
    have hall : OnLine (join ", " (arguments.map n.typeName)).toList := by
      rw [onLine_join_iff]
      intro s hs
      obtain ⟨t, ht, rfl⟩ := List.mem_map.mp hs
      exact harguments t ht
    simp [typeName, typeNames_eq_map, hraw, hall, isLineEnd]
  · intro t ht
    simp [typeName, ht, isLineEnd]
  · rw [typeName]
    decide
  · intro bound t ht
    have hkeyword : OnLine bound.keyword.toList := by cases bound <;> decide
    simp [typeName, ht, hkeyword, isLineEnd]

theorem onLine_annotated_iff {name : String} (hname : OnLine name.toList)
    {values : List (String × Constant)} (hmembers : ∀ e ∈ values, OnLine e.1.toList) :
    OnLine (annotated name (values.map fun e => (e.1, n.constant e.2))).toList ↔
      ∀ e ∈ values, OnLine (n.constant e.2).toList := by
  cases values with
  | nil => simp [annotated, hname, isLineEnd]
  | cons e more =>
    obtain ⟨label, hlabel, htext⟩ := n.exists_label name e more
    obtain ⟨he, hmore⟩ := List.forall_mem_cons.mp hmembers
    have honLine : OnLine label.toList := by
      rcases hlabel with rfl | rfl
      · simp
      · simp [he, isLineEnd]
    have hbehind : OnLine (behind (more.map n.member) []) ↔
        ∀ e ∈ more, OnLine (n.constant e.2).toList := by
      rw [onLine_behind, onLine_join_iff, List.forall_mem_map]
      refine forall₂_congr fun e he => ?_
      simp [member, hmore e he, isLineEnd]
    rw [htext, List.forall_mem_cons]
    simp [hname, honLine, hbehind, isLineEnd]

mutual

/-- When its names are on one line, only a carriage return among its characters can keep a constant
from being on one line. -/
theorem onLine_constant_iff (k : Constant) (hk : k.WellFormed)
    (h : ∀ name ∈ k.names, OnLine name.toList) :
    OnLine (n.constant k).toList ↔ .char '\r' ∉ k.literals := by
  cases k with
  | bool b =>
    cases b <;>
      simp [constant, constantCode, code, codeParts, codePart, Constant.literals, isLineEnd]
  | int i =>
    rw [constant_int]
    simp [Literal.source, Constant.literals, onLine_decimal]
  | char c =>
    rw [constant_char]
    simp [Literal.source, Constant.literals, onLine_charLiteral_iff, eq_comm]
  | string s =>
    rw [constant_string]
    simp [Literal.source, Constant.literals, onLine_stringLiteral]
  | type t =>
    have htype := n.onLine_typeName t.text
    simp [constant, constantCode, code, codeParts, codePart, Constant.literals, htype, isLineEnd]
  | enum t name =>
    have htype := n.onLine_typeName t.text
    have hname := h name (List.mem_singleton_self name)
    simp [constant, constantCode, code, codeParts, codePart, Constant.literals, htype, hname,
      isLineEnd]
  | array items =>
    rw [Constant.literals, ← onLine_items_iff items hk h]
    by_cases hone : items.length = 1
    · -- one item stands without brackets
      obtain ⟨item, rfl⟩ := List.length_eq_one_iff.mp hone
      rw [List.forall_mem_singleton]
      rfl
    · rw [constant_array n hone]
      simp [onLine_join_iff, isLineEnd]
  | nested t values =>
    obtain ⟨hsorted, hvalues⟩ := hk
    obtain ⟨ht, hnames⟩ := List.forall_mem_cons.mp h
    have hmembers : ∀ e ∈ values, OnLine e.1.toList := fun e he =>
      hnames e.1 (Constant.mem_valueNames he)
    rw [constant_nested n t hsorted, n.onLine_annotated_iff (n.onLine_guess ht) hmembers]
    exact onLine_values_iff values hvalues hnames

theorem onLine_items_iff (items : List Constant) (hitems : Constant.ItemsWellFormed items)
    (h : ∀ name ∈ Constant.itemNames items, OnLine name.toList) :
    (∀ k ∈ items, OnLine (n.constant k).toList) ↔ .char '\r' ∉ Constant.itemLiterals items := by
  cases items with
  | nil => simp [Constant.itemLiterals]
  | cons k more =>
    obtain ⟨hk, hmore⟩ := List.forall_mem_append.mp h
    rw [List.forall_mem_cons, Constant.itemLiterals, List.mem_append, not_or,
      onLine_constant_iff k hitems.1 hk, onLine_items_iff more hitems.2 hmore]

theorem onLine_values_iff (values : List (String × Constant))
    (hvalues : Constant.EntriesWellFormed values)
    (h : ∀ name ∈ Constant.valueNames values, OnLine name.toList) :
    (∀ e ∈ values, OnLine (n.constant e.2).toList) ↔
      .char '\r' ∉ Constant.valueLiterals values := by
  match values with
  | [] => simp [Constant.valueLiterals]
  | (name, k) :: more =>
    obtain ⟨-, hnames⟩ := List.forall_mem_cons.mp h
    obtain ⟨hk, hmore⟩ := List.forall_mem_append.mp hnames
    rw [List.forall_mem_cons, Constant.valueLiterals, List.mem_append, not_or,
      onLine_constant_iff k hvalues.1 hk, onLine_values_iff more hvalues.2 hmore]

end

end Naming

end Source

end Provisioning
