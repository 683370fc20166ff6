import Mathlib.Algebra.Group.Nat.Even
import Mathlib.Data.List.DropRight
import Provisioning.Proofs.Json.Scanning
import Provisioning.Source.Literal
import Provisioning.Source.TypeName

/-! # Reading literals

Literals as the generated language reads them, each from the head of a text. A
quoted one holds plain characters and escapes up to the next quotation mark that
does not belong to an escape, all on one line. A text is read back from its
literal, whatever stands behind it; a character or a whole number is so unless
the language has no such literal.
-/

namespace Provisioning.Source

open Json (minInt64 maxInt64)

/-! ## The characters of literals -/

def isLineEnd (c : Char) : Bool := c = '\n' || c = '\r'

def OnLine (s : List Char) : Prop := ∀ c ∈ s, isLineEnd c = false

instance (s : List Char) : Decidable (OnLine s) :=
  decidable_of_iff (s.all fun c => !isLineEnd c) (by simp [OnLine])

@[simp] theorem onLine_nil : OnLine [] := List.forall_mem_nil _

@[simp] theorem onLine_cons {c : Char} {s : List Char} :
    OnLine (c :: s) ↔ isLineEnd c = false ∧ OnLine s := List.forall_mem_cons

@[simp] theorem onLine_append {s t : List Char} : OnLine (s ++ t) ↔ OnLine s ∧ OnLine t :=
  List.forall_mem_append

def escapeMeaning? : Char → Option Char
  | 'b' => some '\x08'
  | 't' => some '\t'
  | 'n' => some '\n'
  | 'f' => some '\x0c'
  | 'r' => some '\r'
  | 's' => some ' '
  | '"' => some '"'
  | '\'' => some '\''
  | '\\' => some '\\'
  | _ => none

/-- The digits of an octal escape: two at most, or three if the first one is below four. -/
def octalDigits (s : List Char) : List Char :=
  let most := if s.head?.any fun c => '0' ≤ c && c ≤ '3' then 3 else 2
  (s.take most).takeWhile fun c => '0' ≤ c && c ≤ '7'

def readEscape (s : List Char) : Option (Char × List Char) :=
  match s.head?.bind escapeMeaning? with
  | some c => some (c, s.tail)
  | none =>
    match octalDigits s with
    | [] => none
    | d :: ds => some (Char.ofNat (Nat.ofDigitChars 8 (d :: ds) 0), s.drop (d :: ds).length)

def readUnit (quote : Char) : List Char → Option (Char × List Char)
  | [] => none
  | c :: rest =>
    if c = '\\' then readEscape rest
    else if c = quote || isLineEnd c then none
    else some (c, rest)

theorem length_lt_of_readEscape {s rest : List Char} {c : Char}
    (h : readEscape s = some (c, rest)) : rest.length < s.length := by
  cases s with
  | nil => simp [readEscape, octalDigits] at h
  | cons d more =>
    unfold readEscape at h
    split at h
    · cases h
      exact Nat.lt_succ_self _
    · split at h
      · cases h
      · cases h
        simp only [List.length_drop, List.length_cons]
        omega

theorem length_lt_of_readUnit {quote : Char} {s rest : List Char} {c : Char}
    (h : readUnit quote s = some (c, rest)) : rest.length < s.length := by
  cases s with
  | nil => cases h
  | cons d more =>
    rw [readUnit] at h
    split at h
    · exact Nat.lt_succ_of_lt (length_lt_of_readEscape h)
    · split at h
      · cases h
      · cases h
        exact Nat.lt_succ_self _

theorem readUnit_escape {quote c d : Char} (h : escapeMeaning? d = some c) (rest : List Char) :
    readUnit quote ('\\' :: d :: rest) = some (c, rest) := by
  simp [readUnit, readEscape, h]

theorem readUnit_plain {quote c : Char} (hb : c ≠ '\\') (hq : c ≠ quote)
    (he : isLineEnd c = false) (rest : List Char) :
    readUnit quote (c :: rest) = some (c, rest) := by
  simp [readUnit, hb, hq, he]

/-! ## Quoted literals -/

def readQuoted (s : List Char) : Option (List Char × List Char) :=
  if s.head? = some '"' then some ([], s.tail)
  else
    match _ : readUnit '"' s with
    | none => none
    | some (c, rest) => (readQuoted rest).map fun r => (c :: r.1, r.2)
termination_by s.length
decreasing_by exact length_lt_of_readUnit ‹_›

def readText : List Char → Option (String × List Char)
  | '"' :: rest => (readQuoted rest).map fun r => (String.ofList r.1, r.2)
  | _ => none

theorem readQuoted_end (rest : List Char) : readQuoted ('"' :: rest) = some ([], rest) := by
  rw [readQuoted]
  rfl

theorem readQuoted_of_unit {s rest : List Char} {c : Char} (hs : s.head? ≠ some '"')
    (h : readUnit '"' s = some (c, rest)) :
    readQuoted s = (readQuoted rest).map fun r => (c :: r.1, r.2) := by
  rw [readQuoted, if_neg hs]
  split
  · rename_i hnone
    rw [h] at hnone
    cases hnone
  · rename_i hsome
    rw [h] at hsome
    cases hsome
    rfl

theorem escapeInString_cases (c : Char) :
    (escapeInString c = [c] ∧ c ≠ '"' ∧ c ≠ '\\' ∧ isLineEnd c = false) ∨
      ∃ d, escapeInString c = ['\\', d] ∧ escapeMeaning? d = some c ∧ isLineEnd d = false := by
  unfold escapeInString
  split
  · exact .inr ⟨'"', rfl, by simp [escapeMeaning?, *], rfl⟩
  split
  · exact .inr ⟨'\\', rfl, by simp [escapeMeaning?, *], rfl⟩
  split
  · exact .inr ⟨'n', rfl, by simp [escapeMeaning?, *], rfl⟩
  split
  · exact .inr ⟨'r', rfl, by simp [escapeMeaning?, *], rfl⟩
  split
  · exact .inr ⟨'t', rfl, by simp [escapeMeaning?, *], rfl⟩
  · exact .inl ⟨rfl, by simp [isLineEnd, *]⟩

theorem readQuoted_escaped (s rest : List Char) :
    readQuoted (s.flatMap escapeInString ++ '"' :: rest) = some (s, rest) := by
  induction s with
  | nil => exact readQuoted_end rest
  | cons c more ih =>
    rw [List.flatMap_cons, List.append_assoc]
    rcases escapeInString_cases c with ⟨hc, hq, hb, he⟩ | ⟨d, hc, hd, -⟩
    · rw [hc, List.singleton_append, readQuoted_of_unit (by simpa using hq)
        (readUnit_plain hb hq he _), ih]
      rfl
    · rw [hc, List.cons_append, List.singleton_append,
        readQuoted_of_unit (by simp) (readUnit_escape hd _), ih]
      rfl

theorem readText_stringLiteral (s : String) (rest : List Char) :
    readText ((stringLiteral s).toList ++ rest) = some (s, rest) := by
  have hchars : (stringLiteral s).toList ++ rest =
      '"' :: (s.toList.flatMap escapeInString ++ '"' :: rest) := by
    simp [stringLiteral, stringLiteralChars]
  rw [hchars, readText, readQuoted_escaped]
  simp

theorem onLine_stringLiteral (s : String) : OnLine (stringLiteral s).toList := by
  intro c hc
  rw [stringLiteral, String.toList_ofList, stringLiteralChars, List.mem_cons, List.mem_append,
    List.mem_flatMap, List.mem_singleton] at hc
  rcases hc with rfl | ⟨d, -, hc⟩ | rfl
  · rfl
  · rcases escapeInString_cases d with ⟨hd, -, -, he⟩ | ⟨e, hd, -, he⟩
    · rw [hd, List.mem_singleton] at hc
      rw [hc, he]
    · rw [hd, List.mem_cons, List.mem_singleton] at hc
      rcases hc with rfl | rfl
      · rfl
      · exact he
  · rfl

/-! ## Unicode escapes -/

/-- A backslash before the letter `u` begins a Unicode escape, unless it is the second one of an
escaped backslash. The number of backslashes directly before it tells. -/
def HasUnicodeEscape (s : List Char) : Prop :=
  ∃ before after, s = before ++ '\\' :: 'u' :: after ∧
    Even (before.rtakeWhile (· = '\\')).length

def endsInEscape (s : List Char) : Bool := s.foldl (fun pending c => !pending && c = '\\') false

@[simp] theorem endsInEscape_cons {c : Char} (h : c ≠ '\\') (s : List Char) :
    endsInEscape (c :: s) = endsInEscape s := by
  simp [endsInEscape, h]

@[simp] theorem endsInEscape_cons_cons (c : Char) (s : List Char) :
    endsInEscape ('\\' :: c :: s) = endsInEscape s := by
  simp [endsInEscape]

theorem endsInEscape_iff (s : List Char) :
    endsInEscape s = true ↔ ¬ Even (s.rtakeWhile (· = '\\')).length := by
  induction s using List.reverseRecOn with
  | nil => simp [endsInEscape]
  | append_singleton s c ih =>
    have hlast : endsInEscape (s ++ [c]) = (!endsInEscape s && c = '\\') := by
      simp [endsInEscape]
    rw [hlast]
    by_cases hc : c = '\\'
    · rw [List.rtakeWhile_concat_pos _ _ _ (by simpa using hc), List.length_append,
        List.length_singleton, Nat.even_add_one, not_not, ← not_iff_not, ← ih]
      simp [hc]
    · rw [List.rtakeWhile_concat_neg _ _ _ (by simpa using hc)]
      simp [hc]

/-- In a written text the letter `u` follows a backslash only behind an escaped backslash. -/
theorem endsInEscape_of_escaped {s before after : List Char}
    (h : s.flatMap escapeInString ++ ['"'] = before ++ '\\' :: 'u' :: after) :
    endsInEscape before = true := by
  induction s generalizing before with
  | nil =>
    cases before with
    | nil => simp at h
    | cons b more => simp at h
  | cons c rest ih =>
    rw [List.flatMap_cons, List.append_assoc] at h
    rcases escapeInString_cases c with ⟨hc, -, hb, -⟩ | ⟨d, hc, hd, -⟩
    · rw [hc, List.singleton_append] at h
      cases before with
      | nil => exact absurd (List.cons.inj h).1 hb
      | cons b more =>
        rw [List.cons_append, List.cons.injEq] at h
        rw [← h.1, endsInEscape_cons hb]
        exact ih h.2
    · rw [hc, List.cons_append, List.singleton_append] at h
      match before with
      | [] =>
        obtain ⟨rfl, -⟩ := List.cons.inj (List.cons.inj h).2
        cases hd
      | [b] =>
        rw [← (List.cons.inj h).1]
        rfl
      | b :: e :: more =>
        rw [List.cons_append, List.cons_append, List.cons.injEq, List.cons.injEq] at h
        rw [← h.1, endsInEscape_cons_cons]
        exact ih h.2.2

theorem not_hasUnicodeEscape_stringLiteral (s : String) :
    ¬ HasUnicodeEscape (stringLiteral s).toList := by
  rintro ⟨before, after, h, heven⟩
  rw [stringLiteral, String.toList_ofList, stringLiteralChars] at h
  cases before with
  | nil => simp at h
  | cons b more =>
    rw [List.cons_append, List.cons.injEq] at h
    have hodd : endsInEscape (b :: more) = true := by
      rw [← h.1, endsInEscape_cons (by decide)]
      exact endsInEscape_of_escaped h.2
    exact (endsInEscape_iff _).mp hodd heven

/-! ## Text literals -/

/-- A text literal is read as the text, and exactly what follows it is left, so no mark inside ends
it and none of its escapes takes the mark at its end. It stands on one line and holds no Unicode
escape, which would be replaced before anything is read. -/
theorem stringLiteral_read_exactly (s : String) (rest : List Char) :
    readText ((stringLiteral s).toList ++ rest) = some (s, rest) ∧
      (∀ c ∈ (stringLiteral s).toList, c ≠ '\n' ∧ c ≠ '\r') ∧
      ¬ HasUnicodeEscape (stringLiteral s).toList := by
  refine ⟨readText_stringLiteral s rest, fun c hc => ?_, not_hasUnicodeEscape_stringLiteral s⟩
  simpa [isLineEnd] using onLine_stringLiteral s c hc

/-! ## Character literals -/

def maxCharConstant : Nat := 0xFFFF

def readCharacter : List Char → Option (Char × List Char)
  | '\'' :: rest =>
    match readUnit '\'' rest with
    | some (c, '\'' :: more) => if c.toNat ≤ maxCharConstant then some (c, more) else none
    | _ => none
  | _ => none

/-- A character constant is written as it is, or as an escape that means it. -/
theorem escapeInChar_cases (c : Char) :
    (escapeInChar c = [c] ∧ c ≠ '\'' ∧ c ≠ '\\' ∧ (isLineEnd c = false ↔ c ≠ '\r')) ∨
      ∃ d, escapeInChar c = ['\\', d] ∧ escapeMeaning? d = some c ∧ isLineEnd d = false ∧
        c ≠ '\r' := by
  unfold escapeInChar
  split
  · exact .inr ⟨'\'', rfl, by simp [escapeMeaning?, *], rfl, by simp [*]⟩
  split
  · exact .inr ⟨'\\', rfl, by simp [escapeMeaning?, *], rfl, by simp [*]⟩
  split
  · exact .inr ⟨'n', rfl, by simp [escapeMeaning?, *], rfl, by simp [*]⟩
  split
  · exact .inr ⟨'t', rfl, by simp [escapeMeaning?, *], rfl, by simp [*]⟩
  · exact .inl ⟨rfl, by simp [isLineEnd, *]⟩

theorem toList_charLiteral (c : Char) :
    (charLiteral c).toList = '\'' :: (escapeInChar c ++ ['\'']) := String.toList_ofList

/-- A character is read back from its literal unless it is beyond the range of characters, or a
carriage return, which is written as it is. -/
theorem readCharacter_charLiteral (c : Char) (rest : List Char) :
    readCharacter ((charLiteral c).toList ++ rest) =
      if c.toNat ≤ maxCharConstant ∧ c ≠ '\r' then some (c, rest) else none := by
  rw [toList_charLiteral, List.cons_append, List.append_assoc, List.singleton_append, readCharacter]
  rcases escapeInChar_cases c with ⟨hc, hq, hb, he⟩ | ⟨d, hc, hd, -, hr⟩
  · rw [hc, List.singleton_append]
    by_cases hr : c = '\r'
    · subst hr
      rfl
    · rw [readUnit_plain hb hq (he.mpr hr)]
      simp [hr]
  · rw [hc, List.cons_append, List.singleton_append, readUnit_escape hd]
    simp [hr]

theorem onLine_charLiteral_iff (c : Char) : OnLine (charLiteral c).toList ↔ c ≠ '\r' := by
  rw [toList_charLiteral, onLine_cons, onLine_append]
  rcases escapeInChar_cases c with ⟨hc, -, -, he⟩ | ⟨d, hc, -, hd, hr⟩
  · rw [hc, onLine_cons, he]
    simp [isLineEnd]
  · rw [hc, onLine_cons, onLine_cons, hd]
    simp [hr, isLineEnd]

/-! ## Whole numbers -/

def minInt32 : Int := -2147483648

def maxInt32 : Int := 2147483647

def endsBefore (s : List Char) : Bool := s.head?.all fun c => !TypeName.isNameChar c

def readDigits (s : List Char) : Option (Nat × List Char) :=
  match s.takeWhile Char.isDigit with
  | [] => none
  | '0' :: _ :: _ => none
  | ds => some (Nat.ofDigitChars 10 ds 0, s.dropWhile Char.isDigit)

/-- Reads the digits of a whole number, which may be negative. With an `L` behind them it has 64
bits, else it has 32. -/
def readWhole (negative : Bool) (s : List Char) : Option (Int × List Char) :=
  (readDigits s).bind fun (m, rest) =>
    let n : Int := if negative then -m else m
    let long := rest.head? = some 'L' ∨ rest.head? = some 'l'
    let after := if long then rest.tail else rest
    let inRange := if long then minInt64 ≤ n ∧ n ≤ maxInt64 else minInt32 ≤ n ∧ n ≤ maxInt32
    if inRange ∧ endsBefore after then some (n, after) else none

def readInteger : List Char → Option (Int × List Char)
  | '-' :: rest => readWhole true rest
  | s => readWhole false s

theorem TypeName.isNameChar_of_isDigit {c : Char} (h : c.isDigit = true) :
    isNameChar c = true := by
  obtain ⟨hlo, hhi⟩ : 0x30 ≤ c.toNat ∧ c.toNat ≤ 0x39 := by
    simpa [Char.isDigit, UInt32.le_iff_toNat_le] using h
  rw [isNameChar, Text.isAlphanumeric, Text.alphanumericRanges, Text.inRanges,
    if_neg (Nat.not_lt.mpr hlo), decide_eq_true hhi]
  rfl

theorem toList_decimal_of_neg {n : Int} (h : n < 0) :
    (Text.decimal n).toList = '-' :: Nat.toDigits 10 n.natAbs := by
  simp [Text.decimal, h, String.toList_append]

theorem toList_decimal_of_not_neg {n : Int} (h : ¬ n < 0) :
    (Text.decimal n).toList = Nat.toDigits 10 n.toNat := by
  simp [Text.decimal, h]

theorem exists_toDigits_cons (m : Nat) :
    ∃ c cs, Nat.toDigits 10 m = c :: cs ∧ c.isDigit = true := by
  obtain ⟨c, cs, hcs⟩ := List.exists_cons_of_ne_nil (Nat.toDigits_ne_nil (n := m) (b := 10))
  have hmem : c ∈ Nat.toDigits 10 m := hcs ▸ List.mem_cons_self
  exact ⟨c, cs, hcs, Nat.isDigit_of_mem_toDigits (by decide) (by decide) hmem⟩

theorem exists_decimal_cons (n : Int) :
    ∃ c cs, (Text.decimal n).toList = c :: cs ∧ (c = '-' ∨ c.isDigit = true) := by
  by_cases hneg : n < 0
  · exact ⟨'-', _, toList_decimal_of_neg hneg, .inl rfl⟩
  · obtain ⟨c, cs, hcs, hc⟩ := exists_toDigits_cons n.toNat
    exact ⟨c, cs, (toList_decimal_of_not_neg hneg).trans hcs, .inr hc⟩

theorem readInteger_of_isDigit {c : Char} (h : c.isDigit = true) (s : List Char) :
    readInteger (c :: s) = readWhole false (c :: s) := by
  rw [readInteger]
  rintro rest ⟨⟩
  cases h

theorem isDigit_of_mem_decimal {n : Int} {c : Char} (h : c ∈ (Text.decimal n).toList) :
    c = '-' ∨ c.isDigit = true := by
  by_cases hneg : n < 0
  · rw [toList_decimal_of_neg hneg] at h
    exact (List.mem_cons.mp h).imp_right (Nat.isDigit_of_mem_toDigits (by decide) (by decide))
  · rw [toList_decimal_of_not_neg hneg] at h
    exact .inr (Nat.isDigit_of_mem_toDigits (by decide) (by decide) h)

theorem onLine_decimal (n : Int) : OnLine (Text.decimal n).toList := by
  intro c hc
  rw [isLineEnd]
  rcases isDigit_of_mem_decimal hc with rfl | hd
  · rfl
  · have hne : ∀ d, d.isDigit = false → c ≠ d := by
      rintro d hfalse rfl
      rw [hd] at hfalse
      cases hfalse
    simp [hne '\n' rfl, hne '\r' rfl]

section Decimal

variable {rest : List Char} (hrest : endsBefore rest = true)

include hrest

theorem head?_ne_of_endsBefore {c : Char} (hc : TypeName.isNameChar c = true) :
    rest.head? ≠ some c := by
  intro h
  rw [endsBefore, h, Option.all_some, hc] at hrest
  cases hrest

theorem readDigits_toDigits (m : Nat) : readDigits (Nat.toDigits 10 m ++ rest) = some (m, rest) := by
  have hdigits : ∀ c ∈ Nat.toDigits 10 m, c.isDigit = true := fun _ hc =>
    Nat.isDigit_of_mem_toDigits (by decide) (by decide) hc
  have hstop : rest.takeWhile Char.isDigit = [] ∧ rest.dropWhile Char.isDigit = rest := by
    cases rest with
    | nil => exact ⟨rfl, rfl⟩
    | cons c more =>
      have hc : c.isDigit = false := by
        by_contra hd
        exact head?_ne_of_endsBefore hrest (TypeName.isNameChar_of_isDigit (by simpa using hd)) rfl
      simp [hc]
  rw [readDigits, List.takeWhile_append_of_pos hdigits, List.dropWhile_append_of_pos hdigits,
    hstop.1, hstop.2, List.append_nil]
  have hvalue : Nat.ofDigitChars 10 (Nat.toDigits 10 m) 0 = m := Nat.ofDigitChars_ten_toDigits
  split
  · rename_i hnil
    exact absurd hnil Nat.toDigits_ne_nil
  · rename_i c more hzero
    have hlength := (Json.Numeral.decimalDigits_wellFormed m).2
    simp [Json.decimalDigits, hzero, Json.digitValue] at hlength
  · rw [hvalue]

theorem readWhole_toDigits (negative : Bool) (m : Nat) {n : Int}
    (hn : (if negative then -(m : Int) else m) = n) :
    readWhole negative (Nat.toDigits 10 m ++ rest) =
      if minInt32 ≤ n ∧ n ≤ maxInt32 then some (n, rest) else none := by
  -- both suffixes go on with the name that would begin here
  have hlong : ¬ (rest.head? = some 'L' ∨ rest.head? = some 'l') := by
    rintro (h | h)
    · exact head?_ne_of_endsBefore hrest (by decide) h
    · exact head?_ne_of_endsBefore hrest (by decide) h
  rw [readWhole, readDigits_toDigits hrest, Option.bind_some]
  simp only [if_neg hlong, hn, hrest, and_true]

/-- A decimal number is read back as it stands if it fits 32 bits. Beyond them it is no number,
since it has no suffix. -/
theorem readInteger_decimal (n : Int) : readInteger ((Text.decimal n).toList ++ rest) =
    if minInt32 ≤ n ∧ n ≤ maxInt32 then some (n, rest) else none := by
  by_cases hneg : n < 0
  · rw [toList_decimal_of_neg hneg, List.cons_append, readInteger]
    exact readWhole_toDigits hrest true _ (by simp only [if_true]; omega)
  · have hread := readWhole_toDigits hrest false n.toNat (n := n)
      (by simp only [Bool.false_eq_true, if_false]; omega)
    obtain ⟨c, cs, hcs, hc⟩ := exists_toDigits_cons n.toNat
    rw [hcs] at hread
    rw [toList_decimal_of_not_neg hneg, hcs, ← hread]
    exact readInteger_of_isDigit hc _

end Decimal

-- The suffix would make the number readable.
example : readInteger "-3000000000L)".toList = some (-3000000000, [')']) := by decide +kernel

/-! ## Literals of any kind -/

inductive Literal
  | int (n : Int)
  | char (c : Char)
  | text (s : String)
  deriving DecidableEq, Repr

namespace Literal

def source : Literal → String
  | .int n => Text.decimal n
  | .char c => charLiteral c
  | .text s => stringLiteral s

def read (s : List Char) : Option (Literal × List Char) :=
  match s.head? with
  | some '"' => (readText s).map fun r => (.text r.1, r.2)
  | some '\'' => (readCharacter s).map fun r => (.char r.1, r.2)
  | _ => (readInteger s).map fun r => (.int r.1, r.2)

/-- What can be read back from its written form: numbers of 32 bits, characters in range other than
the carriage return, and every text. -/
def Readable : Literal → Prop
  | .int n => minInt32 ≤ n ∧ n ≤ maxInt32
  | .char c => c.toNat ≤ maxCharConstant ∧ c ≠ '\r'
  | .text _ => True

instance : DecidablePred Readable
  | .int n => inferInstanceAs (Decidable (minInt32 ≤ n ∧ n ≤ maxInt32))
  | .char c => inferInstanceAs (Decidable (c.toNat ≤ maxCharConstant ∧ c ≠ '\r'))
  | .text _ => inferInstanceAs (Decidable True)

theorem read_of_sign {c : Char} (h : c = '-' ∨ c.isDigit = true) (s : List Char) :
    read (c :: s) = (readInteger (c :: s)).map fun r => (.int r.1, r.2) := by
  rw [read, List.head?_cons]
  split
  · rename_i hhead
    obtain rfl := Option.some.inj hhead
    exact absurd h (by decide)
  · rename_i hhead
    obtain rfl := Option.some.inj hhead
    exact absurd h (by decide)
  · rfl

theorem read_source {rest : List Char} (hrest : endsBefore rest = true) (l : Literal) :
    read (l.source.toList ++ rest) = some (l, rest) ↔ l.Readable := by
  cases l with
  | int n =>
    have hread : read ((Text.decimal n).toList ++ rest) =
        (readInteger ((Text.decimal n).toList ++ rest)).map fun r => (.int r.1, r.2) := by
      obtain ⟨c, cs, hcs, hc⟩ := exists_decimal_cons n
      rw [hcs]
      exact read_of_sign hc _
    rw [source, hread, readInteger_decimal hrest, Readable]
    split <;> simp [*]
  | char c =>
    have hread : read ((charLiteral c).toList ++ rest) =
        (readCharacter ((charLiteral c).toList ++ rest)).map fun r => (.char r.1, r.2) := by
      rw [toList_charLiteral]
      rfl
    rw [source, hread, readCharacter_charLiteral, Readable]
    split <;> simp [*]
  | text s =>
    have hread : read ((stringLiteral s).toList ++ rest) =
        (readText ((stringLiteral s).toList ++ rest)).map fun r => (.text r.1, r.2) := by
      rw [stringLiteral, String.toList_ofList]
      rfl
    rw [source, hread, readText_stringLiteral, Readable]
    simp

end Literal

end Provisioning.Source
