import Mathlib.Data.List.TakeWhile
import Provisioning.Source.Imports

/-! # Where mentioned classes come from

The types and annotations that generated code takes over from declarations are
read from texts, so each class that they mention is read from some text as well.
-/

namespace Provisioning.Source

def ClassName.Guessed (c : ClassName) : Prop := ∃ name, c = guess name

namespace TypeName

section Reading

variable {P : TypeName → Prop}
  (hkeyword : ∀ keyword ∈ keywords, P (.primitive keyword))
  (hclass : ∀ name, (∀ c ∈ name.toList, isNameChar c = true) → P (.class (.guess name)))
  (hparameterized : ∀ name arguments, (∀ c ∈ name.toList, isNameChar c = true) →
    (∀ t ∈ arguments, P t) → P (.parameterized (.guess name) arguments))
  (harray : ∀ t, P t → P (.array t))
  (hwildcard : P .wildcard)
  (hbounded : ∀ bound t, P t → P (.bounded bound t))

theorem isNameChar_of_mem_takeName {s : List Char} {c : Char} (h : c ∈ (takeName s).1.toList) :
    isNameChar c = true := by
  rw [takeName, String.toList_ofList] at h
  exact List.mem_takeWhile_imp h

include harray in
theorem readArrays_induction (steps : Nat) (t : TypeName) (s : List Char) (ht : P t) :
    P (readArrays steps t s).1 := by
  fun_induction readArrays steps t s with
  | case1 t s => exact ht
  | case2 steps t s rest h ih => exact ih (harray t ht)
  | case3 steps t s h => exact ht

include hkeyword hclass hparameterized harray hwildcard hbounded

theorem read_induction (steps : Nat) :
    (∀ s, P (readType steps s).1) ∧ ∀ s, ∀ t ∈ (readMore steps s).1, P t := by
  induction steps with
  | zero =>
    refine ⟨fun s => hclass "" (by simp), ?_⟩
    intro s t ht
    cases ht
  | succ steps ih =>
    obtain ⟨htype, hmore⟩ := ih
    refine ⟨?_, ?_⟩
    · intro s
      unfold readType
      apply readArrays_induction harray
      split
      · -- a wildcard, with a bound or without
        split
        split
        · exact hbounded _ _ (htype _)
        · split
          · exact hbounded _ _ (htype _)
          · exact hwildcard
      · split
        rename_i name rest hname
        have hchars : ∀ c ∈ name.toList, isNameChar c = true := by
          intro c hc
          exact isNameChar_of_mem_takeName (s := s) (by rw [hname]; exact hc)
        split
        · rename_i hkey
          exact hkeyword name (List.contains_iff_mem.mp hkey)
        · split
          · refine hparameterized _ _ hchars ?_
            intro t ht
            rcases List.mem_cons.mp ht with rfl | ht
            · exact htype _
            · exact hmore _ t ht
          · exact hclass name hchars
    · intro s t ht
      unfold readMore at ht
      split at ht
      · rcases List.mem_cons.mp ht with rfl | ht
        · exact htype _
        · exact hmore _ t ht
      · cases ht

/-- What the constructors of a type keep, as far as the reader uses them, holds of all that it
reads. -/
theorem parse_induction (text : String) : P (parse text) :=
  (read_induction hkeyword hclass hparameterized harray hwildcard hbounded _).1 _

end Reading

theorem exists_of_mem_classesOf {ts : List TypeName} {c : ClassName} (h : c ∈ classesOf ts) :
    ∃ t ∈ ts, c ∈ t.classes := by
  induction ts with
  | nil => cases h
  | cons t rest ih =>
    rcases List.mem_append.mp h with h | h
    · exact ⟨t, List.mem_cons_self, h⟩
    · obtain ⟨u, hu, hc⟩ := ih h
      exact ⟨u, List.mem_cons_of_mem _ hu, hc⟩

theorem guessed_parse {text : String} {c : ClassName} (h : c ∈ (parse text).classes) :
    c.Guessed := by
  have hall : ∀ c ∈ (parse text).classes, c.Guessed := by
    refine parse_induction (P := fun t => ∀ c ∈ t.classes, c.Guessed) ?_ ?_ ?_ ?_ ?_ ?_ text
    · intro keyword _ c hc
      cases hc
    · intro name _ c hc
      exact ⟨name, List.mem_singleton.mp hc⟩
    · intro name arguments _ harguments c hc
      rcases List.mem_cons.mp hc with he | hc
      · exact ⟨name, he⟩
      · obtain ⟨t, ht, hc⟩ := exists_of_mem_classesOf hc
        exact harguments t ht c hc
    · exact fun t ht => ht
    · intro c hc
      cases hc
    · exact fun bound t ht => ht
  exact hall c h

end TypeName

namespace CodePart

theorem mem_classesOfCode_append {as bs : Code} {c : ClassName} :
    c ∈ classesOfCode (as ++ bs) ↔ c ∈ classesOfCode as ∨ c ∈ classesOfCode bs := by
  induction as with
  | nil => simp [classesOfCode]
  | cons part rest ih => simp [classesOfCode, ih, or_assoc]

theorem exists_of_mem_classesOfMembers {members : List (String × Code)} {c : ClassName}
    (h : c ∈ classesOfMembers members) : ∃ m ∈ members, c ∈ classesOfCode m.2 := by
  induction members with
  | nil => cases h
  | cons m rest ih =>
    obtain ⟨name, code⟩ := m
    rw [classesOfMembers, List.mem_append] at h
    rcases h with h | h
    · exact ⟨_, List.mem_cons_self, h⟩
    · obtain ⟨k, hk, hc⟩ := ih h
      exact ⟨k, List.mem_cons_of_mem _ hk, hc⟩

end CodePart

theorem exists_of_mem_commaJoin {items : List Code} {c : ClassName}
    (h : c ∈ CodePart.classesOfCode (Code.commaJoin items)) :
    ∃ item ∈ items, c ∈ CodePart.classesOfCode item := by
  induction items with
  | nil => cases h
  | cons item rest ih =>
    cases rest with
    | nil => exact ⟨item, List.mem_cons_self, h⟩
    | cons next more =>
      rcases CodePart.mem_classesOfCode_append.mp h with h | h
      · exact ⟨item, List.mem_cons_self, h⟩
      · have h : c ∈ CodePart.classesOfCode (Code.commaJoin (next :: more)) := h
        obtain ⟨k, hk, hc⟩ := ih h
        exact ⟨k, List.mem_cons_of_mem _ hk, hc⟩

theorem guessed_typeCode {text after : String} {c : ClassName}
    (h : c ∈ CodePart.classesOfCode [.type (.parse text), .text after]) : c.Guessed := by
  rcases List.mem_append.mp h with h | h
  · exact TypeName.guessed_parse h
  · cases h

theorem guessed_members {entries : List (String × Code)} {c : ClassName}
    (hentries : ∀ e ∈ entries, ∀ c ∈ CodePart.classesOfCode e.2, c.Guessed)
    (h : c ∈ CodePart.classesOfMembers (Dict.ofList entries)) : c.Guessed := by
  obtain ⟨e, he, hc⟩ := CodePart.exists_of_mem_classesOfMembers h
  exact hentries e (Dict.mem_of_mem_ofList he) c hc

mutual

theorem guessed_constantCode (k : Constant) :
    ∀ c ∈ CodePart.classesOfCode (constantCode k), c.Guessed := by
  intro c hc
  cases k with
  | bool b => simp [constantCode, CodePart.classesOfCode, CodePart.classes] at hc
  | int n => simp [constantCode, CodePart.classesOfCode, CodePart.classes] at hc
  | char d => simp [constantCode, CodePart.classesOfCode, CodePart.classes] at hc
  | string s => simp [constantCode, CodePart.classesOfCode, CodePart.classes] at hc
  | type t =>
    rw [constantCode] at hc
    exact guessed_typeCode hc
  | enum t constant =>
    rw [constantCode] at hc
    exact guessed_typeCode hc
  | array items =>
    cases items with
    | nil => simp [constantCode, itemsCode, Code.commaJoin, CodePart.classesOfCode,
        CodePart.classes] at hc
    | cons first rest =>
      cases rest with
      | nil =>
        rw [constantCode] at hc
        exact guessed_constantCode first c hc
      | cons second more =>
        rw [constantCode, CodePart.classesOfCode, CodePart.classes, List.nil_append] at hc
        · rcases CodePart.mem_classesOfCode_append.mp hc with hc | hc
          · obtain ⟨code, hcode, hc⟩ := exists_of_mem_commaJoin hc
            exact guessed_itemsCode (first :: second :: more) code hcode c hc
          · cases hc
        · nofun
  | nested t values =>
    rw [constantCode, CodePart.classesOfCode, CodePart.classes, CodePart.classesOfCode,
      List.append_nil] at hc
    rcases List.mem_cons.mp hc with he | hc
    · exact ⟨t.erasure, he⟩
    · exact guessed_members (guessed_entriesCode values) hc

theorem guessed_itemsCode (items : List Constant) :
    ∀ code ∈ itemsCode items, ∀ c ∈ CodePart.classesOfCode code, c.Guessed := by
  intro code hcode c hc
  cases items with
  | nil =>
    rw [itemsCode] at hcode
    cases hcode
  | cons k rest =>
    rw [itemsCode] at hcode
    rcases List.mem_cons.mp hcode with rfl | hcode
    · exact guessed_constantCode k c hc
    · exact guessed_itemsCode rest code hcode c hc

theorem guessed_entriesCode (values : List (String × Constant)) :
    ∀ e ∈ entriesCode values, ∀ c ∈ CodePart.classesOfCode e.2, c.Guessed := by
  intro e he c hc
  cases values with
  | nil =>
    rw [entriesCode] at he
    cases he
  | cons v rest =>
    obtain ⟨name, k⟩ := v
    rw [entriesCode] at he
    rcases List.mem_cons.mp he with rfl | he
    · exact guessed_constantCode k c hc
    · exact guessed_entriesCode rest e he c hc

end

theorem Mark.guessed_ofUse {a : AnnotationUse} {c : ClassName} (h : c ∈ (Mark.ofUse a).classes) :
    c.Guessed := by
  simp only [Mark.classes, Mark.toPart, Mark.ofUse, CodePart.classes, List.mem_cons] at h
  rcases h with he | h
  · exact ⟨a.type.erasure, he⟩
  · exact guessed_members (guessed_entriesCode a.values) h

end Provisioning.Source
