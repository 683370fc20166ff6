import Mathlib.Data.List.DropRight
import Mathlib.Data.List.Flatten
import Provisioning.Model.TypeText

/-! # Erased names

Erasing cuts a name at its type arguments and trims it. It does not matter whether
the name is trimmed before, and erasing a second time changes nothing.
-/

namespace Provisioning

namespace Text

theorem trimLeft_of_head {s : List Char} (h : ∀ c, s.head? = some c → isBlank c = false) :
    trimLeft s = s := by
  cases s with
  | nil => rfl
  | cons c rest => rw [trimLeft, List.dropWhile_cons_of_neg (by simp [h c rfl])]

theorem head_trimLeft {s : List Char} {c : Char} (h : (trimLeft s).head? = some c) :
    isBlank c = false := by
  have hd := List.head?_dropWhile_not isBlank s
  rw [← trimLeft, h] at hd
  simpa using hd

theorem trimRight_prefix (s : List Char) : trimRight s <+: s := List.rdropWhile_prefix isBlank s

theorem trimLeft_trimChars (s : List Char) : trimLeft (trimChars s) = trimChars s := by
  apply trimLeft_of_head
  intro c hc
  refine head_trimLeft (s := s) ?_
  obtain ⟨rest, hrest⟩ := trimRight_prefix (trimLeft s)
  rw [← hrest, List.head?_append]
  exact Option.or_eq_some_iff.mpr (.inl hc)

theorem trimChars_trimChars (s : List Char) : trimChars (trimChars s) = trimChars s := by
  rw [trimChars, trimLeft_trimChars]
  exact List.rdropWhile_idempotent isBlank (trimLeft s)

section Cut

variable {p : Char → Bool} (hp : ∀ c, isBlank c = true → p c = true)
include hp

theorem takeWhile_trimLeft (s : List Char) :
    (trimLeft s).takeWhile p = trimLeft (s.takeWhile p) := by
  induction s with
  | nil => rfl
  | cons c s ih =>
    by_cases hc : isBlank c = true
    · rw [trimLeft, List.dropWhile_cons_of_pos hc, List.takeWhile_cons_of_pos (hp c hc), trimLeft,
        List.dropWhile_cons_of_pos hc]
      exact ih
    · rw [trimLeft, List.dropWhile_cons_of_neg hc]
      by_cases hpc : p c = true
      · rw [List.takeWhile_cons_of_pos hpc, trimLeft, List.dropWhile_cons_of_neg hc]
      · rw [List.takeWhile_cons_of_neg hpc]
        rfl

theorem trimRight_takeWhile (s : List Char) :
    trimRight ((trimRight s).takeWhile p) = trimRight (s.takeWhile p) := by
  induction s using List.reverseRecOn with
  | nil => rfl
  | append_singleton s c ih =>
    by_cases hc : isBlank c = true
    · have hdrop : ∀ t : List Char, trimRight (t ++ [c]) = trimRight t := fun t =>
        List.rdropWhile_concat_pos isBlank t c hc
      rw [hdrop, ih]
      by_cases hs : ∀ a ∈ s, p a = true
      · rw [List.takeWhile_append_of_pos hs, List.takeWhile_cons_of_pos (hp c hc), List.takeWhile_nil,
          hdrop, List.takeWhile_eq_self_iff.mpr hs]
      · rw [List.takeWhile_append, if_neg]
        intro hlength
        exact hs (List.takeWhile_eq_self_iff.mp
          ((List.takeWhile_prefix p).eq_of_length hlength))
    · have hsame : trimRight (s ++ [c]) = s ++ [c] := List.rdropWhile_concat_neg isBlank s c hc
      rw [hsame]

end Cut

end Text

namespace TypeText

/-- A name without type arguments and outer white space. Declarations are found by such names. -/
def IsErased (name : String) : Prop := (TypeText.mk name).erasure = name

theorem isErased_erasure (t : TypeText) : IsErased t.erasure := by
  have hsub : ∀ c ∈ eraseChars t.text.toList, c ≠ '<' := by
    intro c hc
    have hleft : c ∈ Text.trimLeft (t.text.toList.takeWhile (· ≠ '<')) :=
      (Text.trimRight_prefix _).subset hc
    have htake := List.mem_takeWhile_imp ((List.dropWhile_suffix _).subset hleft)
    simpa using htake
  have htake : (eraseChars t.text.toList).takeWhile (· ≠ '<') = eraseChars t.text.toList :=
    List.takeWhile_eq_self_iff.mpr (by simpa using hsub)
  unfold IsErased erasure
  rw [String.toList_ofList, eraseChars, htake, eraseChars, Text.trimChars_trimChars]

theorem eraseChars_trimChars (s : List Char) : eraseChars (Text.trimChars s) = eraseChars s := by
  have hp : ∀ c, Text.isBlank c = true → (decide (c ≠ '<')) = true := by
    intro c hc
    refine decide_eq_true ?_
    rintro rfl
    cases hc
  calc eraseChars (Text.trimChars s)
      = Text.trimRight ((Text.trimLeft (Text.trimChars s)).takeWhile (· ≠ '<')) := by
        rw [eraseChars, Text.trimChars, ← Text.takeWhile_trimLeft hp]
    _ = Text.trimRight ((Text.trimRight (Text.trimLeft s)).takeWhile (· ≠ '<')) := by
        rw [Text.trimLeft_trimChars, Text.trimChars]
    _ = Text.trimRight ((Text.trimLeft s).takeWhile (· ≠ '<')) := Text.trimRight_takeWhile hp _
    _ = eraseChars s := by rw [Text.takeWhile_trimLeft hp, eraseChars, Text.trimChars]

theorem erasure_eq_of_same {a b : TypeText} (h : a.same b = true) : a.erasure = b.erasure := by
  have hchars : Text.trimChars a.text.toList = Text.trimChars b.text.toList :=
    String.ofList_injective (of_decide_eq_true h)
  rw [erasure, erasure, ← eraseChars_trimChars, hchars, eraseChars_trimChars]

end TypeText

end Provisioning
