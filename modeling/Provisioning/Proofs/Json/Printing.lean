import Provisioning.Proofs.Json.Scanning

/-! # Reading a written value back

Both layouts of a value spell the same tokens, and the parser builds the document
of the value from them.
-/

namespace Provisioning.Json

open Token (Spells Ends ends_cons)

namespace Value

mutual

def HoldsExact : Value → Prop
  | .null => True
  | .bool _ => True
  | .number (.whole n) => Exact n
  | .number (.double _) => False
  | .text _ => True
  | .list items => ItemsExact items
  | .record fields => FieldsExact fields

def ItemsExact : List Value → Prop
  | [] => True
  | v :: rest => HoldsExact v ∧ ItemsExact rest

def FieldsExact : List (String × Value) → Prop
  | [] => True
  | (_, v) :: rest => HoldsExact v ∧ FieldsExact rest

end

mutual

def tokens : Value → List Token
  | .null => [.null]
  | .bool b => [.bool b]
  | .number n => [.number (some n)]
  | .text s => [.text (some s)]
  | .list items => .openList :: (itemTokens items ++ [.closeList])
  | .record fields => .openRecord :: (fieldTokens fields ++ [.closeRecord])

def itemTokens : List Value → List Token
  | [] => []
  | [v] => tokens v
  | v :: rest => tokens v ++ .comma :: itemTokens rest

def fieldTokens : List (String × Value) → List Token
  | [] => []
  | [(key, v)] => .text (some key) :: .colon :: tokens v
  | (key, v) :: rest => .text (some key) :: .colon :: (tokens v ++ .comma :: fieldTokens rest)

end

/-! ## The layouts spell the tokens -/

theorem ends_comma {cs : List Char} : Ends (',' :: cs) := ends_cons.mpr (by decide)

theorem ends_closeList {cs : List Char} : Ends (']' :: cs) := ends_cons.mpr (by decide)

theorem ends_closeRecord {cs : List Char} : Ends ('\x7d' :: cs) := ends_cons.mpr (by decide)

mutual

theorem spells_compact (v : Value) (hv : v.HoldsExact) {cs : List Char} {ts : List Token}
    (he : Ends cs) (h : Spells cs ts) : Spells (v.compact.toList ++ cs) (v.tokens ++ ts) := by
  match v with
  | .null => exact .null he h
  | .bool true => exact .bool true he h
  | .bool false => exact .bool false he h
  | .number (.whole n) =>
    rw [HoldsExact] at hv
    exact .number hv he h
  | .number (.double _) => exact absurd hv (by rw [HoldsExact]; exact not_false)
  | .text s => exact .text s h
  | .list items =>
    rw [HoldsExact] at hv
    have hclose : Spells (']' :: cs) (.closeList :: ts) := .mark rfl h
    have hitems := spells_compactItems items hv ends_closeList hclose
    have hopen : Spells ('[' :: _) (.openList :: _) := .mark rfl hitems
    simpa [compact, tokens] using hopen
  | .record fields =>
    rw [HoldsExact] at hv
    have hclose : Spells ('\x7d' :: cs) (.closeRecord :: ts) := .mark rfl h
    have hfields := spells_compactFields fields hv ends_closeRecord hclose
    have hopen : Spells ('\x7b' :: _) (.openRecord :: _) := .mark rfl hfields
    simpa [compact, tokens] using hopen

theorem spells_compactItems (items : List Value) (hv : ItemsExact items) {cs : List Char}
    {ts : List Token} (he : Ends cs) (h : Spells cs ts) :
    Spells ((compactItems items).toList ++ cs) (itemTokens items ++ ts) := by
  match items with
  | [] => exact h
  | [v] =>
    rw [ItemsExact] at hv
    exact spells_compact v hv.1 he h
  | v :: next :: rest =>
    rw [ItemsExact] at hv
    have hrest := spells_compactItems (next :: rest) hv.2 he h
    have hcomma : Spells (',' :: _) (.comma :: _) := .mark rfl hrest
    have hfirst := spells_compact v hv.1 ends_comma hcomma
    simpa [compactItems, itemTokens] using hfirst

theorem spells_compactFields (fields : List (String × Value)) (hv : FieldsExact fields)
    {cs : List Char} {ts : List Token} (he : Ends cs) (h : Spells cs ts) :
    Spells ((compactFields fields).toList ++ cs) (fieldTokens fields ++ ts) := by
  match fields with
  | [] => exact h
  | [(key, v)] =>
    rw [FieldsExact] at hv
    have hvalue := spells_compact v hv.1 he h
    have hcolon : Spells (':' :: _) (.colon :: _) := .mark rfl hvalue
    simpa [compactFields, fieldTokens] using Spells.text key hcolon
  | (key, v) :: next :: rest =>
    rw [FieldsExact] at hv
    have hrest := spells_compactFields (next :: rest) hv.2 he h
    have hcomma : Spells (',' :: _) (.comma :: _) := .mark rfl hrest
    have hvalue := spells_compact v hv.1 ends_comma hcomma
    have hcolon : Spells (':' :: _) (.colon :: _) := .mark rfl hvalue
    simpa [compactFields, fieldTokens] using Spells.text key hcolon

end

theorem spells_newLine (level : Nat) {cs : List Char} {ts : List Token} (h : Spells cs ts) :
    Spells ((newLine level).toList ++ cs) ts := by
  have blanks (n : Nat) : Spells (List.replicate n ' ' ++ cs) ts := by
    induction n with
    | zero => exact h
    | succ n ih => exact .blank rfl ih
  have hline : Spells ('\n' :: _) ts := .blank rfl (blanks (2 * level))
  simpa [newLine] using hline

theorem ends_newLine (level : Nat) {cs : List Char} : Ends ((newLine level).toList ++ cs) := by
  have hline : Ends ('\n' :: (List.replicate (2 * level) ' ' ++ cs)) := ends_cons.mpr (by decide)
  simpa [newLine] using hline

mutual

theorem spells_indented (level : Nat) (v : Value) (hv : v.HoldsExact) {cs : List Char}
    {ts : List Token} (he : Ends cs) (h : Spells cs ts) :
    Spells ((v.indented level).toList ++ cs) (v.tokens ++ ts) := by
  match v with
  | .null => exact .null he h
  | .bool true => exact .bool true he h
  | .bool false => exact .bool false he h
  | .number (.whole n) =>
    rw [HoldsExact] at hv
    exact .number hv he h
  | .number (.double _) => exact absurd hv (by rw [HoldsExact]; exact not_false)
  | .text s => exact .text s h
  | .list [] =>
    have hopen : Spells ('[' :: ']' :: cs) (.openList :: .closeList :: ts) := .mark rfl (.mark rfl h)
    simpa [indented, tokens, itemTokens] using hopen
  | .list (first :: rest) =>
    rw [HoldsExact] at hv
    have hclose : Spells (']' :: cs) (.closeList :: ts) := .mark rfl h
    have hend := spells_newLine level hclose
    have hitems := spells_indentedItems (level + 1) (first :: rest) hv (ends_newLine level) hend
    have hopen : Spells ('[' :: _) (.openList :: _) := .mark rfl hitems
    simpa [indented, tokens] using hopen
  | .record [] =>
    have hopen : Spells ('\x7b' :: '\x7d' :: cs) (.openRecord :: .closeRecord :: ts) :=
      .mark rfl (.mark rfl h)
    simpa [indented, tokens, fieldTokens] using hopen
  | .record (first :: rest) =>
    rw [HoldsExact] at hv
    have hclose : Spells ('\x7d' :: cs) (.closeRecord :: ts) := .mark rfl h
    have hend := spells_newLine level hclose
    have hfields := spells_indentedFields (level + 1) (first :: rest) hv (ends_newLine level) hend
    have hopen : Spells ('\x7b' :: _) (.openRecord :: _) := .mark rfl hfields
    simpa [indented, tokens] using hopen

theorem spells_indentedItems (level : Nat) (items : List Value) (hv : ItemsExact items)
    {cs : List Char} {ts : List Token} (he : Ends cs) (h : Spells cs ts) :
    Spells ((indentedItems level items).toList ++ cs) (itemTokens items ++ ts) := by
  match items with
  | [] => exact h
  | [v] =>
    rw [ItemsExact] at hv
    have hfirst := spells_newLine level (spells_indented level v hv.1 he h)
    simpa [indentedItems, itemTokens] using hfirst
  | v :: next :: rest =>
    rw [ItemsExact] at hv
    have hrest := spells_indentedItems level (next :: rest) hv.2 he h
    have hcomma : Spells (',' :: _) (.comma :: _) := .mark rfl hrest
    have hfirst := spells_newLine level (spells_indented level v hv.1 ends_comma hcomma)
    simpa [indentedItems, itemTokens] using hfirst

theorem spells_indentedFields (level : Nat) (fields : List (String × Value))
    (hv : FieldsExact fields) {cs : List Char} {ts : List Token} (he : Ends cs)
    (h : Spells cs ts) :
    Spells ((indentedFields level fields).toList ++ cs) (fieldTokens fields ++ ts) := by
  match fields with
  | [] => exact h
  | [(key, v)] =>
    rw [FieldsExact] at hv
    have hvalue := spells_indented level v hv.1 he h
    have hcolon : Spells (':' :: ' ' :: _) (.colon :: _) := .mark rfl (.blank rfl hvalue)
    have hfirst := spells_newLine level (Spells.text key hcolon)
    simpa [indentedFields, fieldTokens] using hfirst
  | (key, v) :: next :: rest =>
    rw [FieldsExact] at hv
    have hrest := spells_indentedFields level (next :: rest) hv.2 he h
    have hcomma : Spells (',' :: _) (.comma :: _) := .mark rfl hrest
    have hvalue := spells_indented level v hv.1 ends_comma hcomma
    have hcolon : Spells (':' :: ' ' :: _) (.colon :: _) := .mark rfl (.blank rfl hvalue)
    have hfirst := spells_newLine level (Spells.text key hcolon)
    simpa [indentedFields, fieldTokens] using hfirst

end

end Value

/-! ## The parser builds the document -/

namespace Tree

open Value (tokens itemTokens fieldTokens)

def feed (p : Parse) (ts : List Token) : Option Parse := ts.foldlM step p

theorem feed_of_step {p q : Parse} {t : Token} (h : step p t = some q) (ts : List Token) :
    feed p (t :: ts) = feed q ts := by
  rw [feed, List.foldlM_cons, h]
  rfl

theorem feed_firstItem (stack : List Frame) (v : Value) (more : List Token) :
    feed ⟨.firstItem, stack⟩ (v.tokens ++ more) =
      feed ⟨.value, .list [] :: stack⟩ (v.tokens ++ more) := by
  cases v <;> rfl

theorem feed_firstItem_itemTokens (stack : List Frame) (v : Value) (rest : List Value)
    (more : List Token) :
    feed ⟨.firstItem, stack⟩ (itemTokens (v :: rest) ++ more) =
      feed ⟨.value, .list [] :: stack⟩ (itemTokens (v :: rest) ++ more) := by
  cases rest with
  | nil => exact feed_firstItem stack v more
  | cons w rest =>
    have htokens : itemTokens (v :: w :: rest) = v.tokens ++ .comma :: itemTokens (w :: rest) := rfl
    rw [htokens, List.append_assoc]
    exact feed_firstItem stack v _

theorem feed_firstKey_fieldTokens (stack : List Frame) (e : String × Value)
    (rest : List (String × Value)) (more : List Token) :
    feed ⟨.firstKey, stack⟩ (fieldTokens (e :: rest) ++ more) =
      feed ⟨.key [], stack⟩ (fieldTokens (e :: rest) ++ more) := by
  cases rest <;> rfl

mutual

theorem feed_tokens (stack : List Frame) (v : Value) (more : List Token) :
    feed ⟨.value, stack⟩ (v.tokens ++ more) = feed ⟨.after v.toTree, stack⟩ more := by
  match v with
  | .null => rfl
  | .bool b => rfl
  | .number n => rfl
  | .text s => rfl
  | .list items =>
    have hopen : step ⟨.value, stack⟩ .openList = some ⟨.firstItem, stack⟩ := rfl
    rw [tokens, List.cons_append, List.append_assoc, feed_of_step hopen, Value.toTree]
    match items with
    | [] => rfl
    | first :: rest =>
      have hfirst := feed_firstItem_itemTokens stack first rest (.closeList :: more)
      exact hfirst.trans (feed_itemTokens [] stack (first :: rest) (List.cons_ne_nil _ _) more)
  | .record fields =>
    have hopen : step ⟨.value, stack⟩ .openRecord = some ⟨.firstKey, stack⟩ := rfl
    rw [tokens, List.cons_append, List.append_assoc, feed_of_step hopen, Value.toTree]
    match fields with
    | [] => rfl
    | first :: rest =>
      have hfirst := feed_firstKey_fieldTokens stack first rest (.closeRecord :: more)
      exact hfirst.trans (feed_fieldTokens [] stack (first :: rest) (List.cons_ne_nil _ _) more)

theorem feed_itemTokens (before : List Tree) (stack : List Frame) (items : List Value)
    (hne : items ≠ []) (more : List Token) :
    feed ⟨.value, .list before :: stack⟩ (itemTokens items ++ .closeList :: more) =
      feed ⟨.after (.list (before.reverse ++ Value.listToTrees items)), stack⟩ more := by
  match items with
  | [] => exact absurd rfl hne
  | [v] =>
    have hclose : step ⟨.after v.toTree, .list before :: stack⟩ .closeList =
        some ⟨.after (.list (v.toTree :: before).reverse), stack⟩ := rfl
    rw [itemTokens, feed_tokens, feed_of_step hclose, List.reverse_cons]
    rfl
  | v :: w :: rest =>
    have hcomma : step ⟨.after v.toTree, .list before :: stack⟩ .comma =
        some ⟨.value, .list (v.toTree :: before) :: stack⟩ := rfl
    have hrest := feed_itemTokens (v.toTree :: before) stack (w :: rest) (List.cons_ne_nil _ _) more
    have htokens : itemTokens (v :: w :: rest) = v.tokens ++ .comma :: itemTokens (w :: rest) := rfl
    rw [htokens, List.append_assoc, feed_tokens, List.cons_append, feed_of_step hcomma, hrest,
      List.reverse_cons, List.append_assoc]
    rfl

theorem feed_fieldTokens (before : List (Option String × Tree)) (stack : List Frame)
    (fields : List (String × Value)) (hne : fields ≠ []) (more : List Token) :
    feed ⟨.key before, stack⟩ (fieldTokens fields ++ .closeRecord :: more) =
      feed ⟨.after (.record (before.reverse ++ Value.fieldsToTrees fields)), stack⟩ more := by
  match fields with
  | [] => exact absurd rfl hne
  | [(key, v)] =>
    have hclose : step ⟨.after v.toTree, .record before (some key) :: stack⟩ .closeRecord =
        some ⟨.after (.record ((some key, v.toTree) :: before).reverse), stack⟩ := rfl
    have hvalue := feed_tokens (.record before (some key) :: stack) v (.closeRecord :: more)
    calc feed ⟨.key before, stack⟩ (fieldTokens [(key, v)] ++ .closeRecord :: more)
        = feed ⟨.value, .record before (some key) :: stack⟩ (v.tokens ++ .closeRecord :: more) := rfl
      _ = feed ⟨.after (.record ((some key, v.toTree) :: before).reverse), stack⟩ more := by
          rw [hvalue, feed_of_step hclose]
      _ = _ := by rw [List.reverse_cons]; rfl
  | (key, v) :: next :: rest =>
    have hcomma : step ⟨.after v.toTree, .record before (some key) :: stack⟩ .comma =
        some ⟨.key ((some key, v.toTree) :: before), stack⟩ := rfl
    have hvalue := feed_tokens (.record before (some key) :: stack) v
      (.comma :: (fieldTokens (next :: rest) ++ .closeRecord :: more))
    have hrest := feed_fieldTokens ((some key, v.toTree) :: before) stack (next :: rest)
      (List.cons_ne_nil _ _) more
    calc feed ⟨.key before, stack⟩ (fieldTokens ((key, v) :: next :: rest) ++ .closeRecord :: more)
        = feed ⟨.value, .record before (some key) :: stack⟩
            (v.tokens ++ .comma :: (fieldTokens (next :: rest) ++ .closeRecord :: more)) := by
          rw [← List.cons_append, ← List.append_assoc]; rfl
      _ = feed ⟨.after (.record (((some key, v.toTree) :: before).reverse ++
            Value.fieldsToTrees (next :: rest))), stack⟩ more := by
          rw [hvalue, feed_of_step hcomma, hrest]
      _ = _ := by rw [List.reverse_cons, List.append_assoc]; rfl

end

/-- A text that spells the tokens of a value is parsed to its document. -/
theorem parse_of_spells {text : String} {v : Value} (h : Spells text.toList v.tokens) :
    parse text = some v.toTree := by
  have hfeed := feed_tokens [] v []
  rw [List.append_nil] at hfeed
  rw [parse, Token.scan_of_spells h]
  change (feed ⟨.value, []⟩ v.tokens).bind _ = _
  rw [hfeed]
  rfl

theorem parse_compact {v : Value} (h : v.HoldsExact) : parse v.compact = some v.toTree := by
  have hspells := v.spells_compact h Token.ends_nil .done
  rw [List.append_nil, List.append_nil] at hspells
  exact parse_of_spells hspells

theorem parse_pretty {v : Value} (h : v.HoldsExact) : parse v.pretty = some v.toTree := by
  have hspells := v.spells_indented 0 h Token.ends_nil .done
  rw [List.append_nil, List.append_nil] at hspells
  exact parse_of_spells hspells

end Tree

end Provisioning.Json
