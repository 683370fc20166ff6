import Provisioning.Proofs.Source.TypeReading

/-! # Spelled types

The texts that spell a type: its words and signs in order, with white space before
any of them. Reading undoes spelling. What follows a spelled type is left to be read,
unless it goes on with the type, as a bracket does.
-/

namespace Provisioning.Source.TypeName

open Text (Blank)

def IsBounded (t : TypeName) : Prop := ∃ b u, t = .bounded b u

structure IsName (name : List Char) : Prop where
  ne_nil : name ≠ []
  chars : ∀ c ∈ name, isNameChar c = true
  not_keyword : String.ofList name ∉ keywords

mutual

/-- The text spells the type. Brackets behind a bounded wildcard would belong to the bound. -/
inductive Spells : List Char → TypeName → Prop
  | primitive {before : List Char} {keyword : String} (hb : Blank before)
      (hk : keyword ∈ keywords) : Spells (before ++ keyword.toList) (.primitive keyword)
  | class {before name : List Char} (hb : Blank before) (hn : IsName name) :
      Spells (before ++ name) (.class (.guess (String.ofList name)))
  | parameterized {before name opening first more closing : List Char} {t : TypeName}
      {ts : List TypeName} (hb : Blank before) (hn : IsName name) (ho : Blank opening)
      (hfirst : Spells first t) (hmore : SpellsMore more ts) (hc : Blank closing) :
      Spells (before ++ name ++ (opening ++ '<' :: (first ++ (more ++ (closing ++ ['>'])))))
        (.parameterized (.guess (String.ofList name)) (t :: ts))
  | array {s opening closing : List Char} {t : TypeName} (h : Spells s t) (ht : ¬ t.IsBounded)
      (ho : Blank opening) (hc : Blank closing) :
      Spells (s ++ (opening ++ '[' :: (closing ++ [']']))) (.array t)
  | wildcard {before : List Char} (hb : Blank before) : Spells (before ++ ['?']) .wildcard
  | bounded {before between s : List Char} {c : Char} {b : Bound} {t : TypeName}
      (hb : Blank before) (hw : Blank between) (hc : isNameChar c = false)
      (h : Spells (c :: s) t) :
      Spells (before ++ '?' :: (between ++ b.keyword.toList ++ c :: s)) (.bounded b t)

inductive SpellsMore : List Char → List TypeName → Prop
  | nil : SpellsMore [] []
  | cons {before s rest : List Char} {t : TypeName} {ts : List TypeName} (hb : Blank before)
      (h : Spells s t) (hrest : SpellsMore rest ts) :
      SpellsMore (before ++ ',' :: (s ++ rest)) (t :: ts)

end

/-- The text does not go on with a name or with type arguments. -/
def Stops (rest : List Char) : Prop :=
  ∀ c, (rest.dropWhile Text.isBlank).head? = some c → isNameChar c = false ∧ c ≠ '<'

def Alike (s t : List Char) : Prop := s.dropWhile Text.isBlank = t.dropWhile Text.isBlank

section Follow

variable {s t before rest : List Char} {c : Char}

theorem Alike.eat_eq (h : Alike s t) (c : Char) : eat c s = eat c t := by
  unfold eat
  rw [h]

theorem eat_sign (hb : Blank before) (hc : Text.isBlank c = false) (rest : List Char) :
    eat c (before ++ c :: rest) = some rest := by
  rw [eat_eq_some_iff, List.dropWhile_append_of_pos hb, List.dropWhile_cons_of_neg (by simp [hc])]

theorem head_sign (hb : Blank before) (hn : isNameChar c = false) (rest : List Char) :
    ∀ d, (before ++ c :: rest).head? = some d → isNameChar d = false := by
  intro d hd
  cases before with
  | nil =>
    obtain rfl := Option.some.inj hd
    exact hn
  | cons e more =>
    obtain rfl := Option.some.inj hd
    exact isNameChar_of_isBlank (hb e List.mem_cons_self)

theorem eat_ne_sign (hb : Blank before) (hc : Text.isBlank c = false) {d : Char} (hd : d ≠ c)
    (rest : List Char) : eat d (before ++ c :: rest) = none := by
  rw [eat_eq_none_iff, List.dropWhile_append_of_pos hb, List.dropWhile_cons_of_neg (by simp [hc])]
  exact fun h => hd (Option.some.inj h).symm

theorem stops_sign (hb : Blank before) (hc : Text.isBlank c = false)
    (hn : isNameChar c = false) (hlt : c ≠ '<') (rest : List Char) :
    Stops (before ++ c :: rest) := by
  intro d hd
  rw [List.dropWhile_append_of_pos hb, List.dropWhile_cons_of_neg (by simp [hc])] at hd
  obtain rfl := Option.some.inj hd
  exact ⟨hn, hlt⟩

theorem Stops.eat_eq_none (h : Stops rest) : eat '<' rest = none :=
  eat_eq_none_iff.mpr fun hd => (h _ hd).2 rfl

theorem Stops.head (h : Stops rest) : ∀ c, rest.head? = some c → isNameChar c = false := by
  intro c hc
  cases hblank : Text.isBlank c with
  | true => exact isNameChar_of_isBlank hblank
  | false =>
    obtain ⟨more, rfl⟩ := List.head?_eq_some_iff.mp hc
    refine (h c ?_).1
    rw [List.dropWhile_cons_of_neg (by simp [hblank])]
    rfl

theorem Stops.takeName (h : Stops rest) :
    takeName rest = ("", rest.dropWhile Text.isBlank) := by
  unfold TypeName.takeName
  dsimp only
  cases hd : rest.dropWhile Text.isBlank with
  | nil => rfl
  | cons c more =>
    have hc := (h c (by rw [hd]; rfl)).1
    rw [List.takeWhile_cons_of_neg (by simp [hc]), List.dropWhile_cons_of_neg (by simp [hc])]

theorem Alike.readMore (h : Alike s t) (steps : Nat) :
    (readMore steps s).1 = (readMore steps t).1 ∧
      Alike (readMore steps s).2 (readMore steps t).2 := by
  cases steps with
  | zero => exact ⟨rfl, h⟩
  | succ steps =>
    unfold TypeName.readMore
    rw [h.eat_eq ',']
    cases eat ',' t with
    | none => exact ⟨rfl, h⟩
    | some rest => exact ⟨rfl, rfl⟩

theorem SpellsMore.follow {more : List Char} {ts : List TypeName} (h : SpellsMore more ts)
    (hs : Stops rest) (hb : eat '[' rest = none) :
    Stops (more ++ rest) ∧ eat '[' (more ++ rest) = none := by
  cases h with
  | nil => exact ⟨hs, hb⟩
  | cons hbefore h hmore =>
    rw [List.append_assoc, List.cons_append]
    exact ⟨stops_sign hbefore (by decide) (by decide) (by decide) _,
      eat_ne_sign hbefore (by decide) (by decide) _⟩

end Follow

/-- A type is read from the text, and what follows is left up to white space. -/
def Reads (s : List Char) (t : TypeName) : Prop :=
  ∀ rest, Stops rest → (t.IsBounded → eat '[' rest = none) → ∀ steps, s.length ≤ steps →
    ∃ left, Alike left rest ∧ readType (steps + 1) (s ++ rest) = readArrays left.length t left

def ReadsMore (s : List Char) (ts : List TypeName) : Prop :=
  ∀ rest, Stops rest → eat ',' rest = none → eat '[' rest = none → ∀ steps, s.length < steps →
    ∃ left, Alike left rest ∧ readMore steps (s ++ rest) = (ts, left)

/-- Where no bracket follows, the type is all that is read. -/
theorem Reads.exactly {s : List Char} {t : TypeName} (h : Reads s t) {rest : List Char}
    (hstops : Stops rest) (hb : eat '[' rest = none) (steps : Nat) (hs : s.length ≤ steps) :
    ∃ left, Alike left rest ∧ readType (steps + 1) (s ++ rest) = (t, left) := by
  obtain ⟨left, halike, hread⟩ := h rest hstops (fun _ => hb) steps hs
  refine ⟨left, halike, ?_⟩
  rw [hread, readArrays_of_eat_none (halike.eat_eq '[' ▸ hb)]

section Readings

variable {before between opening closing name s first more : List Char} {t : TypeName}
  {ts : List TypeName}

theorem reads_primitive {keyword : String} (hb : Blank before) (hk : keyword ∈ keywords) :
    Reads (before ++ keyword.toList) (.primitive keyword) := by
  intro rest hstops _ steps _
  obtain ⟨hne, hn⟩ := keyword_chars hk
  have hq := eat_name_append hb hne hn (show isNameChar '?' = false by decide) rest
  have hname := takeName_append hb hne hn hstops.head
  rw [String.ofList_toList] at hname
  refine ⟨rest, rfl, ?_⟩
  rw [readType_of_keyword _ hq (by rw [hname]; exact hk), hname]

theorem reads_class (hb : Blank before) (hn : IsName name) :
    Reads (before ++ name) (.class (.guess (String.ofList name))) := by
  intro rest hstops _ steps _
  have hq := eat_name_append hb hn.ne_nil hn.chars (show isNameChar '?' = false by decide) rest
  have hname := takeName_append hb hn.ne_nil hn.chars hstops.head
  refine ⟨rest, rfl, ?_⟩
  rw [readType_of_class _ hq (by rw [hname]; exact hn.not_keyword)
    (by rw [hname]; exact hstops.eat_eq_none), hname]

theorem reads_parameterized (hb : Blank before) (hn : IsName name) (ho : Blank opening)
    (hfirst : Reads first t) (hmore : ReadsMore more ts)
    (hfollow : ∀ rest, Stops rest → eat '[' rest = none →
      Stops (more ++ rest) ∧ eat '[' (more ++ rest) = none) (hc : Blank closing) :
    Reads (before ++ name ++ (opening ++ '<' :: (first ++ (more ++ (closing ++ ['>'])))))
      (.parameterized (.guess (String.ofList name)) (t :: ts)) := by
  intro rest _ _ steps hsteps
  simp only [List.length_append, List.length_cons] at hsteps
  obtain ⟨steps, rfl⟩ : ∃ k, steps = k + 1 := ⟨steps - 1, by omega⟩
  have htail : Stops (closing ++ '>' :: rest) :=
    stops_sign hc (by decide) (by decide) (by decide) rest
  have hbracket : eat '[' (closing ++ '>' :: rest) = none :=
    eat_ne_sign hc (by decide) (by decide) rest
  -- the first argument stops at the next sign, be it a comma or the closing one
  obtain ⟨hstops, hno⟩ := hfollow _ htail hbracket
  obtain ⟨left, hleft, hread⟩ := hfirst.exactly hstops hno steps (by omega)
  obtain ⟨after, hafter, hargs⟩ := hmore _ htail (eat_ne_sign hc (by decide) (by decide) rest)
    hbracket (steps + 1) (by omega)
  obtain ⟨htypes, hlast⟩ := hleft.readMore (steps + 1)
  rw [hargs] at htypes hlast
  have hclose : eat '>' (readMore (steps + 1) left).2 = some rest := by
    rw [hlast.eat_eq, hafter.eat_eq, eat_sign hc (by decide)]
  have hq := eat_name_append hb hn.ne_nil hn.chars (show isNameChar '?' = false by decide)
    (opening ++ '<' :: (first ++ (more ++ (closing ++ '>' :: rest))))
  have hname := takeName_append hb hn.ne_nil hn.chars
    (head_sign ho (show isNameChar '<' = false by decide)
      (first ++ (more ++ (closing ++ '>' :: rest))))
  have htext :
      before ++ name ++ (opening ++ '<' :: (first ++ (more ++ (closing ++ ['>'])))) ++ rest =
        before ++ name ++ (opening ++ '<' :: (first ++ (more ++ (closing ++ '>' :: rest)))) := by
    simp only [List.append_assoc, List.cons_append, List.nil_append]
  refine ⟨rest, rfl, ?_⟩
  rw [htext, readType_of_arguments _ hq (by rw [hname]; exact hn.not_keyword)
    (by rw [hname]; exact eat_sign ho (by decide) _)]
  simp only [hname, hread, htypes, hclose, Option.getD_some]

theorem reads_array (h : Reads s t) (ht : ¬ t.IsBounded) (ho : Blank opening) (hc : Blank closing) :
    Reads (s ++ (opening ++ '[' :: (closing ++ [']']))) (.array t) := by
  intro rest _ _ steps hsteps
  simp only [List.length_append, List.length_cons] at hsteps
  obtain ⟨left, hleft, hread⟩ := h (opening ++ '[' :: (closing ++ ']' :: rest))
    (stops_sign ho (by decide) (by decide) (by decide) _) (fun hb => absurd hb ht) steps (by omega)
  have heat : eat '[' left = some (closing ++ ']' :: rest) := by
    rw [hleft.eat_eq, eat_sign ho (by decide)]
  -- one step for this bracket, and as many as are needed for those that follow
  have hlength := length_lt_of_eat heat
  obtain ⟨k, hk⟩ : ∃ k, left.length = k + 1 := ⟨left.length - 1, by omega⟩
  have htext : s ++ (opening ++ '[' :: (closing ++ [']'])) ++ rest =
      s ++ (opening ++ '[' :: (closing ++ ']' :: rest)) := by
    simp only [List.append_assoc, List.cons_append, List.nil_append]
  refine ⟨rest, rfl, ?_⟩
  simp only [List.length_append, List.length_cons] at hlength
  rw [htext, hread, hk, readArrays, heat]
  dsimp only
  rw [eat_sign hc (by decide), Option.getD_some]
  exact readArrays_of_le (by omega) (Nat.le_refl _)

theorem reads_wildcard (hb : Blank before) : Reads (before ++ ['?']) .wildcard := by
  intro rest hstops _ steps _
  have hq : eat '?' (before ++ ['?'] ++ rest) = some rest := by
    rw [List.append_assoc, List.singleton_append, eat_sign hb (by decide)]
  refine ⟨rest.dropWhile Text.isBlank, List.dropWhile_idempotent _ _, ?_⟩
  rw [readType_of_wildcard _ hq, hstops.takeName]
  intro b
  rw [hstops.takeName]
  change "" ≠ b.keyword
  cases b <;> decide

theorem reads_bounded {c : Char} {b : Bound} (hb : Blank before) (hw : Blank between)
    (hc : isNameChar c = false) (h : Reads (c :: s) t) :
    Reads (before ++ '?' :: (between ++ b.keyword.toList ++ c :: s)) (.bounded b t) := by
  intro rest hstops hbracket steps hsteps
  simp only [List.length_append, List.length_cons] at hsteps
  obtain ⟨steps, rfl⟩ : ∃ k, steps = k + 1 := ⟨steps - 1, by omega⟩
  have hne : b.keyword.toList ≠ [] := by cases b <;> decide
  have hchars : b.keyword.toList.all isNameChar = true := by cases b <;> decide
  rw [List.all_eq_true] at hchars
  have hname : takeName (between ++ b.keyword.toList ++ (c :: s ++ rest)) =
      (b.keyword, c :: s ++ rest) := by
    rw [takeName_append hw hne hchars, String.ofList_toList]
    intro d hd
    obtain rfl := Option.some.inj hd
    exact hc
  have hq : eat '?' (before ++ '?' :: (between ++ b.keyword.toList ++ c :: s) ++ rest) =
      some (between ++ b.keyword.toList ++ (c :: s ++ rest)) := by
    rw [List.append_assoc, List.cons_append, eat_sign hb (by decide), List.append_assoc]
  obtain ⟨left, hleft, hread⟩ := h.exactly hstops (hbracket ⟨b, t, rfl⟩) steps
    (by simp only [List.length_cons]; omega)
  refine ⟨left, hleft, ?_⟩
  rw [readType_of_bounded _ hq (by rw [hname]), hname]
  simp only [hread]

theorem readsMore_nil : ReadsMore [] [] := by
  intro rest _ hcomma _ steps _
  refine ⟨rest, rfl, ?_⟩
  cases steps with
  | zero => rfl
  | succ steps => rw [List.nil_append, readMore, hcomma]

theorem readsMore_cons (hb : Blank before) (h : Reads s t) (hmore : ReadsMore more ts)
    (hfollow : ∀ rest, Stops rest → eat '[' rest = none →
      Stops (more ++ rest) ∧ eat '[' (more ++ rest) = none) :
    ReadsMore (before ++ ',' :: (s ++ more)) (t :: ts) := by
  intro rest hstops hcomma hbracket steps hsteps
  simp only [List.length_append, List.length_cons] at hsteps
  obtain ⟨steps, rfl⟩ : ∃ k, steps = k + 2 := ⟨steps - 2, by omega⟩
  obtain ⟨hs, hno⟩ := hfollow rest hstops hbracket
  obtain ⟨left, hleft, hread⟩ := h.exactly hs hno steps (by omega)
  obtain ⟨after, hafter, hargs⟩ := hmore rest hstops hcomma hbracket (steps + 1) (by omega)
  obtain ⟨htypes, hlast⟩ := hleft.readMore (steps + 1)
  rw [hargs] at htypes hlast
  have htext : before ++ ',' :: (s ++ more) ++ rest = before ++ ',' :: (s ++ (more ++ rest)) := by
    simp only [List.append_assoc, List.cons_append]
  refine ⟨(readMore (steps + 1) left).2, hlast.trans hafter, ?_⟩
  rw [htext, readMore, eat_sign hb (by decide)]
  simp only [hread, htypes]

end Readings

mutual

/-- A type is read back from each of its spellings. -/
theorem Spells.reads {s : List Char} {t : TypeName} (h : Spells s t) : Reads s t := by
  cases h with
  | primitive hb hk => exact reads_primitive hb hk
  | «class» hb hn => exact reads_class hb hn
  | parameterized hb hn ho hfirst hmore hc =>
    exact reads_parameterized hb hn ho hfirst.reads hmore.reads (fun _ => hmore.follow) hc
  | array h ht ho hc => exact reads_array h.reads ht ho hc
  | wildcard hb => exact reads_wildcard hb
  | bounded hb hw hc h => exact reads_bounded hb hw hc h.reads

theorem SpellsMore.reads {s : List Char} {ts : List TypeName} (h : SpellsMore s ts) :
    ReadsMore s ts := by
  cases h with
  | nil => exact readsMore_nil
  | cons hb h hmore => exact readsMore_cons hb h.reads hmore.reads fun _ => hmore.follow

end

theorem Spells.parse_eq {s after : List Char} {t : TypeName} (h : Spells s t) (ha : Blank after)
    {text : String} (htext : text.toList = s ++ after) : parse text = t := by
  have hdrop : after.dropWhile Text.isBlank = [] := List.dropWhile_eq_nil_iff.mpr ha
  have hstops : Stops after := by
    intro c hc
    rw [hdrop] at hc
    cases hc
  have hbracket : eat '[' after = none := by
    rw [eat_eq_none_iff, hdrop]
    exact nofun
  obtain ⟨left, -, hread⟩ := h.reads.exactly hstops hbracket text.toList.length
    (by simp [htext])
  unfold parse
  rw [← htext] at hread
  rw [hread]

end Provisioning.Source.TypeName
