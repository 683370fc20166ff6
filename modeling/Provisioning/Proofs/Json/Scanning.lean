import Mathlib.Data.List.Forall2
import Mathlib.Data.Option.Basic
import Provisioning.Json.Printer

/-! # Scanning a written value

The text of a value, in either layout, is cut into the tokens of the value. What
the scanner does with a number or a word depends on the character behind it, so
a text is described together with what follows: `Spells` builds it from the back.
-/

namespace Provisioning.Json

/-! ## Digits -/

def digitValue (c : Char) : Nat := c.toNat - '0'.toNat

theorem takeDigits_of_digits {cs : List Char} (h : ∀ c ∈ cs, c.isDigit = true) :
    takeDigits cs = (cs.map digitValue, []) := by
  induction cs with
  | nil => rfl
  | cons c rest ih =>
    have hc := h c List.mem_cons_self
    have hrest := ih fun d hd => h d (List.mem_cons_of_mem _ hd)
    rw [takeDigits, if_pos hc, hrest]
    rfl

theorem digitValue_digitChar {d : Nat} (h : d < 10) : digitValue d.digitChar = d := by
  rw [digitValue, Nat.toNat_digitChar_of_lt_ten h]
  exact Nat.add_sub_cancel_left 48 d

def decimalDigits (n : Nat) : List Nat := (Nat.toDigits 10 n).map digitValue

theorem decimalDigits_of_lt {n : Nat} (h : n < 10) : decimalDigits n = [n] := by
  rw [decimalDigits, Nat.toDigits_of_lt_base h, List.map_singleton, digitValue_digitChar h]

theorem decimalDigits_of_le {n : Nat} (h : 10 ≤ n) :
    decimalDigits n = decimalDigits (n / 10) ++ [n % 10] := by
  have hlt : n % 10 < 10 := Nat.mod_lt n (by decide)
  rw [decimalDigits, Nat.toDigits_of_base_le (by decide) h, List.map_append, List.map_singleton,
    digitValue_digitChar hlt, decimalDigits]

theorem takeDigits_toDigits (n : Nat) : takeDigits (Nat.toDigits 10 n) = (decimalDigits n, []) :=
  takeDigits_of_digits fun _ hc => Nat.isDigit_of_mem_toDigits (by decide) (by decide) hc

theorem head?_decimalDigits (n : Nat) : ∃ d, (decimalDigits n).head? = some d ∧ (d = 0 → n = 0) := by
  induction n using Nat.strongRecOn with
  | ind n ih =>
    by_cases h : n < 10
    · exact ⟨n, by rw [decimalDigits_of_lt h]; rfl, id⟩
    · have hle : 10 ≤ n := Nat.le_of_not_lt h
      obtain ⟨d, hd, hzero⟩ := ih (n / 10) (by omega)
      refine ⟨d, by rw [decimalDigits_of_le hle, List.head?_append, hd]; rfl, fun hd0 => ?_⟩
      have := hzero hd0
      omega

theorem Numeral.absorb_append {s m : Nat} {ds es : List Nat} (h : absorb s ds = (m, [])) :
    absorb s (ds ++ es) = absorb m es := by
  fun_induction absorb s ds with
  | case1 s =>
    cases h
    rfl
  | case2 s d rest hle ih => rw [List.cons_append, absorb, if_pos hle, ih h]
  | case3 s d rest hgt => cases h

theorem Numeral.absorb_decimalDigits {n : Nat} (h : n ≤ maxSignificand) :
    absorb 0 (decimalDigits n) = (n, []) := by
  induction n using Nat.strongRecOn with
  | ind n ih =>
    by_cases hlt : n < 10
    · rw [decimalDigits_of_lt hlt, absorb, Nat.zero_mul, Nat.zero_add, if_pos h, absorb]
    · have hle : 10 ≤ n := Nat.le_of_not_lt hlt
      have hfront := ih (n / 10) (by omega) (by omega)
      have hback : n / 10 * 10 + n % 10 = n := Nat.div_add_mod' n 10
      rw [decimalDigits_of_le hle, absorb_append hfront, absorb, hback, if_pos h, absorb]

namespace Numeral

def ofWhole (negative : Bool) (n : Nat) : Numeral := ⟨negative, decimalDigits n, [], none⟩

theorem decimalDigits_wellFormed (n : Nat) : decimalDigits n ≠ [] ∧
    ((decimalDigits n).head? = some 0 → (decimalDigits n).length = 1) := by
  obtain ⟨d, hd, hzero⟩ := head?_decimalDigits n
  refine ⟨fun hnil => ?_, fun hhead => ?_⟩
  · rw [hnil] at hd
    cases hd
  · have hn : n = 0 := hzero (Option.some.inj (hd.symm.trans hhead))
    rw [hn, decimalDigits_of_lt (by decide)]
    rfl

theorem ofChars?_minus (n : Nat) : ofChars? ('-' :: Nat.toDigits 10 n) = some (ofWhole true n) := by
  have hwell := decimalDigits_wellFormed n
  simp only [ofChars?, takeDigits_toDigits, takeFraction, takeExponent, guard, if_pos hwell]
  rfl

theorem ofChars?_toDigits (n : Nat) : ofChars? (Nat.toDigits 10 n) = some (ofWhole false n) := by
  have hwell := decimalDigits_wellFormed n
  have htake := takeDigits_toDigits n
  have hsign : '-' ∉ Nat.toDigits 10 n := fun h =>
    absurd (Nat.isDigit_of_mem_toDigits (by decide) (by decide) h) (by decide)
  generalize Nat.toDigits 10 n = cs at htake hsign
  unfold ofChars?
  split
  rename_i negative s heq
  split at heq
  · exact absurd List.mem_cons_self hsign
  · cases heq
    simp only [htake, takeFraction, takeExponent, guard, if_pos hwell]
    rfl

theorem value?_ofWhole {n : Nat} (h : n ≤ maxSignificand) :
    (ofWhole false n).value? = some (.whole n) := by
  simp [value?, ofWhole, absorb_decimalDigits h]

theorem value?_ofWhole_negative {n : Nat} (hzero : n ≠ 0) (hmin : minInt64 ≤ -(n : Int)) :
    (ofWhole true n).value? = some (.whole (-n)) := by
  have hle : n ≤ maxSignificand := by
    rw [minInt64] at hmin
    rw [maxSignificand]
    omega
  simp [value?, ofWhole, absorb_decimalDigits hle, hzero, hmin]

end Numeral

/-- A whole number that a document holds exactly. -/
def Exact (n : Int) : Prop := minInt64 ≤ n ∧ n ≤ Numeral.maxSignificand

theorem number?_render {n : Int} (h : Exact n) :
    Token.number? (Number.whole n).render.toList = some (.number (some (.whole n))) := by
  obtain ⟨hmin, hmax⟩ := h
  by_cases hneg : n < 0
  · have hchars : (Number.whole n).render.toList = '-' :: Nat.toDigits 10 n.natAbs := by
      simp [Number.render, hneg, String.toList_append]
    have hvalue : -(n.natAbs : Int) = n := by omega
    have hread := Numeral.value?_ofWhole_negative (n := n.natAbs) (by omega) (by omega)
    rw [Token.number?, hchars, Numeral.ofChars?_minus, Option.map_some, hread, hvalue]
  · have hchars : (Number.whole n).render.toList = Nat.toDigits 10 n.toNat := by
      simp [Number.render, hneg]
    have hvalue : (n.toNat : Int) = n := by omega
    have hread := Numeral.value?_ofWhole (n := n.toNat) (by omega)
    rw [Token.number?, hchars, Numeral.ofChars?_toDigits, Option.map_some, hread, hvalue]

namespace Token

/-! ## Strings -/

inductive Stands : Piece → Char → Prop
  | char (c : Char) : Stands (.char c) c
  | unit {c : Char} (h : c.toNat < 0x20) : Stands (.unit c.toNat) c

theorem chars?_unit {n : Nat} (h : n < 0x20) (ps : List Piece) :
    chars? (.unit n :: ps) = (chars? ps).map (Char.ofNat n :: ·) := by
  have hhigh : isHighSurrogate n = false := by
    rw [isHighSurrogate, decide_eq_false (by omega), Bool.false_and]
  have hlow : isLowSurrogate n = false := by
    rw [isLowSurrogate, decide_eq_false (by omega), Bool.false_and]
  match ps with
  | [] => simp [chars?, hhigh, hlow]
  | .char c :: rest => simp [chars?, hhigh, hlow]
  | .unit m :: rest => simp [chars?, hhigh, hlow]

theorem chars?_of_stands {ps : List Piece} {cs : List Char} (h : List.Forall₂ Stands ps cs) :
    chars? ps = some cs := by
  induction h with
  | nil => rfl
  | cons hp _ ih =>
    cases hp with
    | char c => rw [chars?, ih, Option.map_some]
    | unit hc => rw [chars?_unit hc, ih, Option.map_some, Char.ofNat_toNat]

def scanFrom (s : Scan) (cs : List Char) : Option (List Token) := (cs.foldlM step s).bind finish

theorem scanFrom_nil (s : Scan) : scanFrom s [] = finish s := rfl

theorem scanFrom_cons (s : Scan) (c : Char) (cs : List Char) :
    scanFrom s (c :: cs) = (step s c).bind (scanFrom · cs) := by
  rw [scanFrom, List.foldlM_cons]
  cases step s c <;> rfl

theorem scanFrom_of_step {s s' : Scan} {c : Char} (h : step s c = some s') (cs : List Char) :
    scanFrom s (c :: cs) = scanFrom s' cs := by
  rw [scanFrom_cons, h, Option.bind_some]

theorem hexDigit?_hexDigit {d : Nat} (h : d < 16) : hexDigit? (hexDigit d) = some d := by
  have all : ∀ e < 16, hexDigit? (hexDigit e) = some e := by decide
  exact all d h

theorem scanFrom_simpleEscape {c e : Char} (he : simpleEscape? e = some c) (hu : e ≠ 'u')
    (pieces : List Piece) (ts : List Token) (rest : List Char) :
    scanFrom ⟨.string pieces, ts⟩ ('\\' :: e :: rest) =
      scanFrom ⟨.string (.char c :: pieces), ts⟩ rest := by
  have hopen : step ⟨.string pieces, ts⟩ '\\' = some ⟨.escape pieces, ts⟩ := rfl
  have hclose : step ⟨.escape pieces, ts⟩ e = some ⟨.string (.char c :: pieces), ts⟩ := by
    simp [step, hu, he]
  rw [scanFrom_of_step hopen, scanFrom_of_step hclose]

theorem scanFrom_unitEscape {n : Nat} (h : n < 0x100) (pieces : List Piece) (ts : List Token)
    (rest : List Char) :
    scanFrom ⟨.string pieces, ts⟩
        ('\\' :: 'u' :: '0' :: '0' :: hexDigit (n / 16) :: hexDigit (n % 16) :: rest) =
      scanFrom ⟨.string (.unit n :: pieces), ts⟩ rest := by
  have hvalue : n / 16 * 16 + n % 16 = n := Nat.div_add_mod' n 16
  have hthird : step ⟨.hex pieces 2 0, ts⟩ (hexDigit (n / 16)) =
      some ⟨.hex pieces 3 (n / 16), ts⟩ := by
    simp [step, hexDigit?_hexDigit (d := n / 16) (by omega)]
  have hfourth : step ⟨.hex pieces 3 (n / 16), ts⟩ (hexDigit (n % 16)) =
      some ⟨.string (.unit n :: pieces), ts⟩ := by
    simp [step, hexDigit?_hexDigit (d := n % 16) (by omega), hvalue]
  calc scanFrom ⟨.string pieces, ts⟩
          ('\\' :: 'u' :: '0' :: '0' :: hexDigit (n / 16) :: hexDigit (n % 16) :: rest)
      = scanFrom ⟨.hex pieces 2 0, ts⟩ (hexDigit (n / 16) :: hexDigit (n % 16) :: rest) := rfl
    _ = scanFrom ⟨.hex pieces 3 (n / 16), ts⟩ (hexDigit (n % 16) :: rest) :=
        scanFrom_of_step hthird _
    _ = scanFrom ⟨.string (.unit n :: pieces), ts⟩ rest := scanFrom_of_step hfourth rest

theorem scanFrom_escapeChar (pieces : List Piece) (ts : List Token) (c : Char) (rest : List Char) :
    ∃ p, Stands p c ∧ scanFrom ⟨.string pieces, ts⟩ (escapeChar c ++ rest) =
      scanFrom ⟨.string (p :: pieces), ts⟩ rest := by
  have simple {e : Char} (he : simpleEscape? e = some c) (hu : e ≠ 'u') : ∃ p, Stands p c ∧
      scanFrom ⟨.string pieces, ts⟩ ('\\' :: e :: rest) =
        scanFrom ⟨.string (p :: pieces), ts⟩ rest :=
    ⟨.char c, .char c, scanFrom_simpleEscape he hu pieces ts rest⟩
  fun_cases escapeChar c with
  | case1 h => exact simple (by rw [h]; rfl) (by decide)
  | case2 _ h => exact simple (by rw [h]; rfl) (by decide)
  | case3 _ _ h => exact simple (by rw [h]; rfl) (by decide)
  | case4 _ _ _ h => exact simple (by rw [h]; rfl) (by decide)
  | case5 _ _ _ _ h => exact simple (by rw [h]; rfl) (by decide)
  | case6 _ _ _ _ _ h => exact simple (by rw [h]; rfl) (by decide)
  | case7 _ _ _ _ _ _ h => exact simple (by rw [h]; rfl) (by decide)
  | case8 _ _ _ _ _ _ _ hcontrol =>
    exact ⟨_, .unit hcontrol, scanFrom_unitEscape (Nat.lt_trans hcontrol (by decide)) pieces ts rest⟩
  | case9 hquote hbackslash _ _ _ _ _ hcontrol =>
    have hstep : step ⟨.string pieces, ts⟩ c = some ⟨.string (.char c :: pieces), ts⟩ := by
      simp [step, hquote, hbackslash, hcontrol]
    exact ⟨_, .char c, scanFrom_of_step hstep rest⟩

theorem scanFrom_escaped (cs : List Char) (pieces : List Piece) (ts : List Token)
    (rest : List Char) : ∃ ps, List.Forall₂ Stands ps cs ∧
      scanFrom ⟨.string pieces, ts⟩ (cs.flatMap escapeChar ++ rest) =
        scanFrom ⟨.string (ps.reverse ++ pieces), ts⟩ rest := by
  induction cs generalizing pieces with
  | nil => exact ⟨[], .nil, rfl⟩
  | cons c more ih =>
    obtain ⟨p, hp, hc⟩ := scanFrom_escapeChar pieces ts c (more.flatMap escapeChar ++ rest)
    obtain ⟨ps, hps, hmore⟩ := ih (p :: pieces)
    refine ⟨p :: ps, .cons hp hps, ?_⟩
    rw [List.flatMap_cons, List.append_assoc, hc, hmore, List.reverse_cons, List.append_assoc]
    rfl

theorem scanFrom_quote (s : String) (ts : List Token) (rest : List Char) :
    scanFrom ⟨.between, ts⟩ ((quote s).toList ++ rest) =
      scanFrom ⟨.between, .text (some s) :: ts⟩ rest := by
  obtain ⟨ps, hps, hscan⟩ := scanFrom_escaped s.toList [] ts ('"' :: rest)
  have hclose : step ⟨.string (ps.reverse ++ []), ts⟩ '"' =
      some ⟨.between, .text (some s) :: ts⟩ := by
    simp [step, chars?_of_stands hps]
  have hchars : (quote s).toList ++ rest = '"' :: (s.toList.flatMap escapeChar ++ '"' :: rest) := by
    simp [quote]
  have hopen : step ⟨.between, ts⟩ '"' = some ⟨.string [], ts⟩ := rfl
  rw [hchars, scanFrom_of_step hopen, hscan, scanFrom_of_step hclose]

/-! ## Numbers and words -/

/-- What ends a number or a word: the end of the text, or a character that belongs to neither. -/
def Ends (rest : List Char) : Prop := ∀ c ∈ rest.head?, isNumberChar c = false ∧ c.isAlpha = false

theorem ends_nil : Ends [] := fun _ hc => by cases hc

theorem ends_cons {c : Char} {rest : List Char} :
    Ends (c :: rest) ↔ isNumberChar c = false ∧ c.isAlpha = false := by
  simp [Ends]

/-- In the mode, characters of the class are gathered; the end of the text or any other character
turns them into a token. -/
structure Gathers (m : List Char → Mode) (inClass : Char → Bool)
    (token? : List Char → Option Token) : Prop where
  more : ∀ before ts c, inClass c = true → step ⟨m before, ts⟩ c = some ⟨m (c :: before), ts⟩
  stop : ∀ before ts c, inClass c = false →
    step ⟨m before, ts⟩ c = (token? before.reverse).bind fun t => start (t :: ts) c
  finish : ∀ before ts,
    finish ⟨m before, ts⟩ = (token? before.reverse).map fun t => (t :: ts).reverse

theorem gathers_number : Gathers .number isNumberChar number? where
  more before ts c h := by simp [step, h]
  stop before ts c h := by simp [step, h]
  finish _ _ := rfl

theorem gathers_word : Gathers .word Char.isAlpha word? where
  more before ts c h := by simp [step, h]
  stop before ts c h := by simp [step, h]
  finish _ _ := rfl

theorem Gathers.scanFrom {m : List Char → Mode} {inClass : Char → Bool}
    {token? : List Char → Option Token} (hg : Gathers m inClass token?) {before cs rest : List Char}
    {t : Token} (hcs : ∀ c ∈ cs, inClass c = true) (hrest : ∀ c ∈ rest.head?, inClass c = false)
    (ht : token? (before.reverse ++ cs) = some t) (ts : List Token) :
    scanFrom ⟨m before, ts⟩ (cs ++ rest) = scanFrom ⟨.between, t :: ts⟩ rest := by
  induction cs generalizing before with
  | nil =>
    rw [List.append_nil] at ht
    cases rest with
    | nil =>
      rw [List.append_nil, scanFrom_nil, hg.finish, ht]
      rfl
    | cons c more =>
      -- the character behind the token is taken once, as one between two tokens
      have hstep : step ⟨m before, ts⟩ c = step ⟨.between, t :: ts⟩ c := by
        rw [hg.stop before ts c (hrest c rfl), ht]
        rfl
      rw [List.nil_append, scanFrom_cons, hstep, ← scanFrom_cons]
  | cons c more ih =>
    rw [List.forall_mem_cons] at hcs
    have ht' : token? ((c :: before).reverse ++ more) = some t := by
      rw [List.reverse_cons, List.append_assoc]
      exact ht
    rw [List.cons_append, scanFrom_of_step (hg.more before ts c hcs.1), ih hcs.2 ht']

theorem render_chars (n : Int) : ∃ c more, (Number.whole n).render.toList = c :: more ∧
    (c = '-' ∨ c.isDigit = true) ∧ ∀ d ∈ c :: more, isNumberChar d = true := by
  have digits (m : Nat) : ∀ d ∈ Nat.toDigits 10 m, d.isDigit = true := fun d hd =>
    Nat.isDigit_of_mem_toDigits (by decide) (by decide) hd
  have isNumber {d : Char} (h : d.isDigit = true) : isNumberChar d = true := by
    simp [isNumberChar, h]
  by_cases hneg : n < 0
  · refine ⟨'-', Nat.toDigits 10 n.natAbs, by simp [Number.render, hneg], .inl rfl, ?_⟩
    intro d hd
    rcases List.mem_cons.mp hd with rfl | hd
    · rfl
    · exact isNumber (digits _ d hd)
  · obtain ⟨c, more, hcs⟩ := List.exists_cons_of_length_pos
      (Nat.length_toDigits_pos (b := 10) (n := n.toNat))
    have hmem : ∀ d ∈ c :: more, d.isDigit = true := hcs ▸ digits n.toNat
    refine ⟨c, more, by simp [Number.render, hneg, hcs], .inr (hmem c List.mem_cons_self), ?_⟩
    exact fun d hd => isNumber (hmem d hd)

theorem isSpace_of_isDigit {c : Char} (h : c.isDigit = true) : isSpace c = false := by
  rw [Bool.eq_false_iff]
  intro hspace
  simp only [isSpace, Bool.or_eq_true, decide_eq_true_eq] at hspace
  rcases hspace with ((rfl | rfl) | rfl) | rfl <;> exact absurd h (by decide)

theorem scanFrom_render {n : Int} (h : Exact n) (ts : List Token) {rest : List Char}
    (he : Ends rest) : scanFrom ⟨.between, ts⟩ ((Number.whole n).render.toList ++ rest) =
      scanFrom ⟨.between, .number (some (.whole n)) :: ts⟩ rest := by
  obtain ⟨c, more, hcs, hstart, hchars⟩ := render_chars n
  have hspace : isSpace c = false ∧ c ≠ '"' := by
    rcases hstart with rfl | hdigit
    · decide
    · exact ⟨isSpace_of_isDigit hdigit, fun hq => absurd (hq ▸ hdigit) (by decide)⟩
  have hstep : step ⟨.between, ts⟩ c = some ⟨.number [c], ts⟩ := by
    simp [step, start, hspace.1, hspace.2, hstart]
  have htoken : number? ([c].reverse ++ more) = some (.number (some (.whole n))) := by
    rw [List.reverse_singleton, List.singleton_append, ← hcs, number?_render h]
  rw [hcs, List.cons_append, scanFrom_of_step hstep]
  exact gathers_number.scanFrom (List.forall_mem_cons.mp hchars).2 (fun d hd => (he d hd).1) htoken ts

theorem scanFrom_word (c : Char) (cs : List Char) {t : Token} {ts : List Token}
    (hstart : step ⟨.between, ts⟩ c = some ⟨.word [c], ts⟩) (hcs : cs.all Char.isAlpha = true)
    (h : word? (c :: cs) = some t) {rest : List Char} (he : Ends rest) :
    scanFrom ⟨.between, ts⟩ (c :: (cs ++ rest)) = scanFrom ⟨.between, t :: ts⟩ rest := by
  have htoken : word? ([c].reverse ++ cs) = some t := h
  rw [scanFrom_of_step hstart]
  exact gathers_word.scanFrom (List.all_eq_true.mp hcs) (fun d hd => (he d hd).2) htoken ts

theorem scanFrom_null (ts : List Token) {rest : List Char} (he : Ends rest) :
    scanFrom ⟨.between, ts⟩ ("null".toList ++ rest) = scanFrom ⟨.between, .null :: ts⟩ rest :=
  scanFrom_word 'n' ['u', 'l', 'l'] rfl rfl rfl he

theorem scanFrom_bool (b : Bool) (ts : List Token) {rest : List Char} (he : Ends rest) :
    scanFrom ⟨.between, ts⟩ ((if b then "true" else "false").toList ++ rest) =
      scanFrom ⟨.between, .bool b :: ts⟩ rest := by
  cases b with
  | true => exact scanFrom_word 't' ['r', 'u', 'e'] rfl rfl rfl he
  | false => exact scanFrom_word 'f' ['a', 'l', 's', 'e'] rfl rfl rfl he

theorem step_blank {c : Char} (h : isSpace c = true) (ts : List Token) :
    step ⟨.between, ts⟩ c = some ⟨.between, ts⟩ := by
  simp [step, start, h]

theorem step_punctuation {c : Char} {t : Token} (h : punctuation? c = some t) (ts : List Token) :
    step ⟨.between, ts⟩ c = some ⟨.between, t :: ts⟩ := by
  unfold punctuation? at h
  split at h <;> cases h <;> rfl

/-! ## Texts that spell tokens -/

/-- The text is the tokens with blanks before, between and behind them. -/
inductive Spells : List Char → List Token → Prop
  | done : Spells [] []
  | blank {c : Char} {cs : List Char} {ts : List Token} (h : isSpace c = true)
    (hr : Spells cs ts) : Spells (c :: cs) ts
  | mark {c : Char} {t : Token} {cs : List Char} {ts : List Token} (h : punctuation? c = some t)
    (hr : Spells cs ts) : Spells (c :: cs) (t :: ts)
  | text (s : String) {cs : List Char} {ts : List Token} (hr : Spells cs ts) :
    Spells ((quote s).toList ++ cs) (.text (some s) :: ts)
  | number {n : Int} {cs : List Char} {ts : List Token} (h : Exact n) (he : Ends cs)
    (hr : Spells cs ts) :
    Spells ((Number.whole n).render.toList ++ cs) (.number (some (.whole n)) :: ts)
  | null {cs : List Char} {ts : List Token} (he : Ends cs) (hr : Spells cs ts) :
    Spells ("null".toList ++ cs) (.null :: ts)
  | bool (b : Bool) {cs : List Char} {ts : List Token} (he : Ends cs) (hr : Spells cs ts) :
    Spells ((if b then "true" else "false").toList ++ cs) (.bool b :: ts)

theorem Spells.scanFrom {cs : List Char} {ts : List Token} (h : Spells cs ts)
    (before : List Token) : scanFrom ⟨.between, before⟩ cs = some (before.reverse ++ ts) := by
  induction h generalizing before with
  | done => simp [scanFrom_nil, finish]
  | blank hc _ ih => rw [scanFrom_of_step (step_blank hc before), ih]
  | mark hc _ ih => simp [scanFrom_of_step (step_punctuation hc before), ih]
  | text s _ ih => simp [scanFrom_quote, ih]
  | number hn he _ ih => simp [scanFrom_render hn before he, ih]
  | null he _ ih => rw [scanFrom_null before he, ih]; simp
  | bool b he _ ih => rw [scanFrom_bool b before he, ih]; simp

theorem scan_of_spells {s : String} {ts : List Token} (h : Spells s.toList ts) :
    scan s = some ts := h.scanFrom []

end Token

end Provisioning.Json
