import Provisioning.Proofs.Model.Erasure
import Provisioning.Source.TypeName

/-! # The head of a type text

A type is read by its head: a question mark, or a name that is a keyword or a
class. Brackets behind the head only wrap it into arrays. The name at the head
is also the beginning of the erased text, so declarations and generated types
are told from the same characters.
-/

namespace Provisioning

namespace Text

def Blank (s : List Char) : Prop := ∀ c ∈ s, isBlank c = true

theorem blank_nil : Blank [] := nofun

theorem blank_space : Blank [' '] := List.all_eq_true.mp (by decide)

theorem exists_range_of_inRanges {ranges : List (Nat × Nat)} {n : Nat}
    (h : inRanges ranges n = true) : ∃ r ∈ ranges, r.1 ≤ n ∧ n ≤ r.2 := by
  induction ranges with
  | nil => cases h
  | cons r rest ih =>
    obtain ⟨lo, hi⟩ := r
    simp only [inRanges] at h
    split at h
    · cases h
    · rename_i hlo
      rcases (Bool.or_eq_true _ _).mp h with hhi | hrest
      · exact ⟨_, List.mem_cons_self, Nat.le_of_not_lt hlo, of_decide_eq_true hhi⟩
      · obtain ⟨r, hr, hn⟩ := ih hrest
        exact ⟨r, List.mem_cons_of_mem _ hr, hn⟩

theorem isAlphanumeric_of_isBlank {c : Char} (h : isBlank c = true) : isAlphanumeric c = false := by
  have hall : ∀ r ∈ blanks, ∀ n ∈ List.range' r.1 (r.2 + 1 - r.1),
      inRanges alphanumericRanges n = false := by decide +kernel
  obtain ⟨r, hr, hlo, hhi⟩ := exists_range_of_inRanges h
  exact hall r hr _ (List.mem_range'_1.mpr ⟨hlo, by omega⟩)

theorem exists_blank_append (s : List Char) : ∃ after, s = trimRight s ++ after ∧ Blank after := by
  refine ⟨s.rtakeWhile isBlank, List.rdropWhile_append_rtakeWhile.symm, ?_⟩
  intro c hc
  exact List.mem_rtakeWhile_imp hc

end Text

namespace Source.TypeName

open Text (Blank)

theorem isNameChar_of_isBlank {c : Char} (h : Text.isBlank c = true) : isNameChar c = false := by
  have hne : ∀ d, Text.isBlank d = false → c ≠ d := by
    rintro d hd rfl
    rw [h] at hd
    cases hd
  simp [isNameChar, Text.isAlphanumeric_of_isBlank h, hne '_' rfl, hne '$' rfl, hne '.' rfl]

theorem isBlank_of_isNameChar {c : Char} (h : isNameChar c = true) : Text.isBlank c = false := by
  by_contra hb
  rw [isNameChar_of_isBlank (Bool.not_eq_false _ ▸ hb)] at h
  cases h

section Eat

variable {c : Char} {s rest : List Char}

theorem eat_eq_some_iff : eat c s = some rest ↔ s.dropWhile Text.isBlank = c :: rest := by
  unfold eat
  cases s.dropWhile Text.isBlank with
  | nil => simp
  | cons d more =>
    by_cases hd : d = c
    · simp [hd]
    · simp [hd]

theorem eat_eq_none_iff : eat c s = none ↔ (s.dropWhile Text.isBlank).head? ≠ some c := by
  unfold eat
  cases s.dropWhile Text.isBlank with
  | nil => simp
  | cons d more =>
    by_cases hd : d = c
    · simp [hd]
    · simp [hd]

theorem length_lt_of_eat (h : eat c s = some rest) : rest.length < s.length := by
  have hsuffix := (List.dropWhile_suffix Text.isBlank (l := s)).length_le
  rw [eat_eq_some_iff.mp h, List.length_cons] at hsuffix
  exact hsuffix

end Eat

section Names

variable {before name rest s : List Char}

theorem takeName_fst (s : List Char) :
    (takeName s).1.toList = (s.dropWhile Text.isBlank).takeWhile isNameChar := String.toList_ofList

theorem dropWhile_blank_name (hb : Blank before) (hne : name ≠ [])
    (hn : ∀ c ∈ name, isNameChar c = true) (rest : List Char) :
    (before ++ name ++ rest).dropWhile Text.isBlank = name ++ rest := by
  obtain ⟨c, more, rfl⟩ := List.exists_cons_of_ne_nil hne
  have hc : Text.isBlank c = false := isBlank_of_isNameChar (hn c List.mem_cons_self)
  rw [List.append_assoc, List.dropWhile_append_of_pos hb, List.cons_append,
    List.dropWhile_cons_of_neg (by simp [hc])]

theorem takeName_append (hb : Blank before) (hne : name ≠ [])
    (hn : ∀ c ∈ name, isNameChar c = true)
    (hr : ∀ c, rest.head? = some c → isNameChar c = false) :
    takeName (before ++ name ++ rest) = (String.ofList name, rest) := by
  have hstop : rest.takeWhile isNameChar = [] ∧ rest.dropWhile isNameChar = rest := by
    cases rest with
    | nil => exact ⟨rfl, rfl⟩
    | cons d after => simp [hr d rfl]
  unfold takeName
  dsimp only
  rw [dropWhile_blank_name hb hne hn, List.takeWhile_append_of_pos hn,
    List.dropWhile_append_of_pos hn, hstop.1, hstop.2, List.append_nil]

theorem takeName_spec (s : List Char) :
    ∃ before, s = before ++ (takeName s).1.toList ++ (takeName s).2 ∧ Blank before ∧
      ∀ c, (takeName s).2.head? = some c → isNameChar c = false := by
  refine ⟨s.takeWhile Text.isBlank, ?_, fun c hc => List.mem_takeWhile_imp hc, ?_⟩
  · calc s = s.takeWhile Text.isBlank ++ s.dropWhile Text.isBlank :=
          List.takeWhile_append_dropWhile.symm
      _ = s.takeWhile Text.isBlank ++ ((s.dropWhile Text.isBlank).takeWhile isNameChar ++
            (s.dropWhile Text.isBlank).dropWhile isNameChar) := by
          rw [List.takeWhile_append_dropWhile (p := isNameChar)]
      _ = s.takeWhile Text.isBlank ++ (takeName s).1.toList ++ (takeName s).2 := by
          rw [takeName_fst, List.append_assoc]
          rfl
  · intro c hc
    have hd := List.head?_dropWhile_not isNameChar (s.dropWhile Text.isBlank)
    have hsnd : (takeName s).2 = (s.dropWhile Text.isBlank).dropWhile isNameChar := rfl
    rw [← hsnd, hc] at hd
    simpa using hd

theorem eat_name_append (hb : Blank before) (hne : name ≠ [])
    (hn : ∀ c ∈ name, isNameChar c = true) {sign : Char} (hsign : isNameChar sign = false)
    (rest : List Char) : eat sign (before ++ name ++ rest) = none := by
  rw [eat_eq_none_iff, dropWhile_blank_name hb hne hn]
  obtain ⟨c, more, rfl⟩ := List.exists_cons_of_ne_nil hne
  rintro h
  have hc := hn c List.mem_cons_self
  rw [Option.some.inj h, hsign] at hc
  cases hc

end Names

def IsArray (t : TypeName) : Prop := ∃ e, t = .array e

def innermost : TypeName → TypeName
  | .array t => t.innermost
  | t => t

theorem innermost_of_not_isArray {t : TypeName} (h : ¬ t.IsArray) : t.innermost = t := by
  cases t with
  | array e => exact absurd ⟨e, rfl⟩ h
  | _ => rfl

section Arrays

variable {t : TypeName} {s : List Char}

theorem innermost_readArrays (steps : Nat) (t : TypeName) (s : List Char) :
    (readArrays steps t s).1.innermost = t.innermost := by
  fun_induction readArrays steps t s with
  | case1 t s => rfl
  | case2 steps t s rest h ih => exact ih
  | case3 steps t s h => rfl

theorem readArrays_of_eat_none (h : eat '[' s = none) (steps : Nat) :
    readArrays steps t s = (t, s) := by
  cases steps with
  | zero => rfl
  | succ steps => rw [readArrays, h]

theorem isArray_readArrays (h : t.IsArray) (steps : Nat) : (readArrays steps t s).1.IsArray := by
  fun_induction readArrays steps t s with
  | case1 t s => exact h
  | case2 steps t s rest heat ih => exact ih ⟨t, rfl⟩
  | case3 steps t s heat => exact h

theorem readArrays_eq_iff (h : ¬ t.IsArray) :
    (readArrays s.length t s).1 = t ↔ eat '[' s = none := by
  constructor
  · intro he
    by_contra heat
    obtain ⟨rest, hrest⟩ := Option.ne_none_iff_exists'.mp heat
    obtain ⟨steps, hsteps⟩ : ∃ steps, s.length = steps + 1 :=
      Nat.exists_eq_add_one.mpr (Nat.lt_of_le_of_lt (Nat.zero_le _) (length_lt_of_eat hrest))
    -- after the first bracket whatever is read is an array
    rw [hsteps, readArrays, hrest] at he
    exact h (he ▸ isArray_readArrays ⟨t, rfl⟩ steps)
  · intro heat
    rw [readArrays_of_eat_none heat]

theorem readArrays_of_le {steps more : Nat} (hs : s.length ≤ steps) (hm : s.length ≤ more) :
    readArrays steps t s = readArrays more t s := by
  induction steps generalizing more t s with
  | zero =>
    have hnil : s = [] := List.length_eq_zero_iff.mp (Nat.le_zero.mp hs)
    subst hnil
    rw [readArrays_of_eat_none rfl, readArrays_of_eat_none rfl]
  | succ steps ih =>
    cases heat : eat '[' s with
    | none => rw [readArrays_of_eat_none heat, readArrays_of_eat_none heat]
    | some rest =>
      have hlength := length_lt_of_eat heat
      obtain ⟨more, rfl⟩ : ∃ k, more = k + 1 := ⟨more - 1, by omega⟩
      have hrest : ((eat ']' rest).getD rest).length ≤ rest.length := by
        cases hclose : eat ']' rest with
        | none => exact Nat.le_refl _
        | some after => exact (length_lt_of_eat hclose).le
      rw [readArrays, readArrays, heat]
      exact ih (by omega) (by omega)

end Arrays

section Heads

variable {s : List Char} (steps : Nat)

theorem innermost_readType_of_question {rest : List Char} (h : eat '?' s = some rest) :
    (readType (steps + 1) s).1.innermost = .wildcard ∨
      ∃ b t, (readType (steps + 1) s).1.innermost = .bounded b t := by
  unfold readType
  rw [innermost_readArrays, h]
  dsimp only
  split
  · exact .inr ⟨_, _, rfl⟩
  · split
    · exact .inr ⟨_, _, rfl⟩
    · exact .inl rfl

theorem readType_of_bounded {rest : List Char} {b : Bound} (hq : eat '?' s = some rest)
    (hb : (takeName rest).1 = b.keyword) : readType (steps + 1) s =
      let inner := readType steps (takeName rest).2
      readArrays inner.2.length (.bounded b inner.1) inner.2 := by
  rw [readType]
  cases b with
  | «extends» => simp [hq, hb]
  | super => simp [hq, hb, show Bound.super.keyword ≠ Bound.extends.keyword by decide]

theorem readType_of_wildcard {rest : List Char} (hq : eat '?' s = some rest)
    (hb : ∀ b : Bound, (takeName rest).1 ≠ b.keyword) : readType (steps + 1) s =
      readArrays (takeName rest).2.length .wildcard (takeName rest).2 := by
  rw [readType]
  simp [hq, hb]

variable (hq : eat '?' s = none)
include hq

theorem readType_of_keyword (hk : (takeName s).1 ∈ keywords) : readType (steps + 1) s =
    readArrays (takeName s).2.length (.primitive (takeName s).1) (takeName s).2 := by
  unfold readType
  simp [hq, hk]

variable (hk : (takeName s).1 ∉ keywords)
include hk

theorem readType_of_class (ha : eat '<' (takeName s).2 = none) : readType (steps + 1) s =
    readArrays (takeName s).2.length (.class (.guess (takeName s).1)) (takeName s).2 := by
  unfold readType
  simp [hq, hk, ha]

theorem readType_of_arguments {inner : List Char} (ha : eat '<' (takeName s).2 = some inner) :
    readType (steps + 1) s =
      let first := readType steps inner
      let more := readMore steps first.2
      let rest := (eat '>' more.2).getD more.2
      readArrays rest.length (.parameterized (.guess (takeName s).1) (first.1 :: more.1)) rest := by
  rw [readType]
  simp [hq, hk, ha]

end Heads

section Keywords

variable {text word : String}

/-- The word stands at the head of the text, which does not go on to a longer name or an array. -/
def ReadsAs (text word : String) : Prop :=
  ∃ before rest, text.toList = before ++ word.toList ++ rest ∧ Blank before ∧
    (∀ c, rest.head? = some c → isNameChar c = false) ∧
    (rest.dropWhile Text.isBlank).head? ≠ some '['

theorem keyword_chars (h : word ∈ keywords) :
    word.toList ≠ [] ∧ ∀ c ∈ word.toList, isNameChar c = true := by
  have hall : ∀ k ∈ keywords, k.toList ≠ [] ∧ k.toList.all isNameChar = true := by decide
  obtain ⟨hne, hchars⟩ := hall word h
  exact ⟨hne, List.all_eq_true.mp hchars⟩

/-- A type is read as a primitive type or `void` exactly where its keyword stands at the head. -/
theorem parse_eq_primitive_iff :
    parse text = .primitive word ↔ word ∈ keywords ∧ ReadsAs text word := by
  unfold parse
  constructor
  · intro h
    have hinner := congrArg innermost h
    cases hq : eat '?' text.toList with
    | some rest =>
      rcases innermost_readType_of_question text.toList.length hq with he | ⟨b, t, he⟩ <;>
        rw [he] at hinner <;> cases hinner
    | none =>
      by_cases hk : (takeName text.toList).1 ∈ keywords
      · rw [readType_of_keyword _ hq hk, innermost_readArrays] at hinner
        have hword : (takeName text.toList).1 = word := by
          simpa [innermost] using hinner
        rw [readType_of_keyword _ hq hk, ← hword, readArrays_eq_iff (by rintro ⟨e, he⟩; cases he)]
          at h
        obtain ⟨before, htext, hb, hr⟩ := takeName_spec text.toList
        rw [hword] at htext hk
        exact ⟨hk, before, _, htext, hb, hr, eat_eq_none_iff.mp h⟩
      · cases ha : eat '<' (takeName text.toList).2 with
        | none =>
          rw [readType_of_class _ hq hk ha, innermost_readArrays] at hinner
          cases hinner
        | some inner =>
          rw [readType_of_arguments _ hq hk ha, innermost_readArrays] at hinner
          cases hinner
  · rintro ⟨hk, before, rest, htext, hb, hr, hbracket⟩
    obtain ⟨hne, hn⟩ := keyword_chars hk
    have hname : takeName text.toList = (word, rest) := by
      rw [htext, takeName_append hb hne hn hr, String.ofList_toList]
    have hq : eat '?' text.toList = none := by
      rw [htext]
      exact eat_name_append hb hne hn (by decide) rest
    rw [readType_of_keyword _ hq (by rw [hname]; exact hk), hname,
      readArrays_of_eat_none (eat_eq_none_iff.mpr hbracket)]

end Keywords

section Erased

theorem exists_eraseChars (s : List Char) :
    ∃ after, (Text.trimLeft s).takeWhile (· ≠ '<') = TypeText.eraseChars s ++ after ∧
      Blank after := by
  have hp : ∀ c, Text.isBlank c = true → decide (c ≠ '<') = true := by
    intro c hc
    refine decide_eq_true ?_
    rintro rfl
    cases hc
  rw [Text.takeWhile_trimLeft hp]
  exact Text.exists_blank_append _

/-- The name at the head of a text is the one at the head of its erasure. -/
theorem takeWhile_eraseChars (s : List Char) :
    (TypeText.eraseChars s).takeWhile isNameChar =
      (s.dropWhile Text.isBlank).takeWhile isNameChar := by
  obtain ⟨after, happend, hb⟩ := exists_eraseChars s
  have hafter : after.takeWhile isNameChar = [] := by
    rw [List.takeWhile_eq_nil_iff]
    intro hpos
    simp [isNameChar_of_isBlank (hb _ (List.getElem_mem hpos))]
  -- a name ends where type arguments or white space begin, so what is erased is no part of it
  have hcut : ∀ c, isNameChar c = true → decide (c ≠ '<') = true := by
    intro c hc
    refine decide_eq_true ?_
    rintro rfl
    cases hc
  calc (TypeText.eraseChars s).takeWhile isNameChar
      = (TypeText.eraseChars s ++ after).takeWhile isNameChar := by
        rw [List.takeWhile_append, hafter, List.append_nil]
        split
        · rename_i hlength
          exact (List.takeWhile_prefix isNameChar).eq_of_length hlength
        · rfl
    _ = ((Text.trimLeft s).takeWhile (· ≠ '<')).takeWhile isNameChar := by rw [happend]
    _ = (s.dropWhile Text.isBlank).takeWhile isNameChar := by
        rw [List.takeWhile_takeWhile]
        refine congrArg (fun p => List.takeWhile p _) (funext fun c => ?_)
        cases hc : isNameChar c with
        | false => simp
        | true => simpa using hcut c hc

theorem eat_question_iff (s : List Char) :
    eat '?' s = none ↔ (TypeText.eraseChars s).head? ≠ some '?' := by
  obtain ⟨after, happend, hb⟩ := exists_eraseChars s
  rw [eat_eq_none_iff, not_iff_not, ← Text.trimLeft]
  have hhead : (Text.trimLeft s).head? = some '?' ↔
      ((Text.trimLeft s).takeWhile (· ≠ '<')).head? = some '?' := by
    cases Text.trimLeft s with
    | nil => simp
    | cons c rest =>
      by_cases hc : c = '<'
      · simp [hc]
      · simp [hc]
  rw [hhead, happend]
  cases TypeText.eraseChars s with
  | cons c rest => simp
  | nil =>
    cases after with
    | nil => simp
    | cons c rest =>
      have hc := hb c List.mem_cons_self
      simp only [List.nil_append, List.head?_cons, Option.some.injEq, List.head?_nil, reduceCtorEq,
        iff_false]
      rintro rfl
      cases hc

/-- What is read from a text, arrays aside, is told from the beginning of its erasure: a wildcard, a
primitive type or `void`, or a class with type arguments or without. -/
theorem innermost_parse (t : TypeText) :
    let name := String.ofList (t.erasure.toList.takeWhile isNameChar)
    let type := (parse t.text).innermost
    (t.erasure.toList.head? = some '?' ∧ (type = .wildcard ∨ ∃ b u, type = .bounded b u)) ∨
      (t.erasure.toList.head? ≠ some '?' ∧ name ∈ keywords ∧ type = .primitive name) ∨
      (t.erasure.toList.head? ≠ some '?' ∧ name ∉ keywords ∧
        (type = .class (.guess name) ∨
          ∃ arguments, type = .parameterized (.guess name) arguments)) := by
  dsimp only
  have herasure : t.erasure.toList = TypeText.eraseChars t.text.toList := String.toList_ofList
  have hname :
      String.ofList (t.erasure.toList.takeWhile isNameChar) = (takeName t.text.toList).1 := by
    rw [herasure, takeWhile_eraseChars]
    rfl
  rw [hname, herasure, parse]
  cases hq : eat '?' t.text.toList with
  | some rest =>
    have hhead := mt (eat_question_iff t.text.toList).mpr (by simp [hq])
    exact .inl ⟨not_not.mp hhead, innermost_readType_of_question _ hq⟩
  | none =>
    have hhead := (eat_question_iff t.text.toList).mp hq
    by_cases hk : (takeName t.text.toList).1 ∈ keywords
    · refine .inr (.inl ⟨hhead, hk, ?_⟩)
      rw [readType_of_keyword _ hq hk, innermost_readArrays]
      rfl
    · refine .inr (.inr ⟨hhead, hk, ?_⟩)
      cases ha : eat '<' (takeName t.text.toList).2 with
      | none =>
        rw [readType_of_class _ hq hk ha, innermost_readArrays]
        exact .inl rfl
      | some inner =>
        rw [readType_of_arguments _ hq hk ha, innermost_readArrays]
        exact .inr ⟨_, rfl⟩

end Erased

end Source.TypeName

end Provisioning
