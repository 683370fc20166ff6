import Provisioning.Json.Token

/-!
# Documents

A document as it is written: fields in their order, repeated keys included. The parser moves over
the tokens with a stack of the lists and records that are still open, so nesting is not limited
here; how deep a document may be is up to its reader.
-/

namespace Provisioning.Json

/-- A document as it is written. A number, text or key of `none` is well formed but stands for
nothing. -/
inductive Tree
  | null
  | bool (b : Bool)
  | number (n : Option Number)
  | text (s : Option String)
  | list (items : List Tree)
  | record (fields : List (Option String × Tree))
  deriving Repr

namespace Tree

/-- A list or record that is still open, with what it holds so far, last first. -/
inductive Frame
  | list (items : List Tree)
  | record (fields : List (Option String × Tree)) (key : Option String)

inductive Expect
  | value
  | firstItem
  | firstKey
  | key (fields : List (Option String × Tree))
  | colon (fields : List (Option String × Tree)) (key : Option String)
  | after (t : Tree)

structure Parse where
  expect : Expect
  stack : List Frame

def value (stack : List Frame) : Token → Option Parse
  | .openList => some ⟨.firstItem, stack⟩
  | .openRecord => some ⟨.firstKey, stack⟩
  | .null => some ⟨.after .null, stack⟩
  | .bool b => some ⟨.after (.bool b), stack⟩
  | .number n => some ⟨.after (.number n), stack⟩
  | .text s => some ⟨.after (.text s), stack⟩
  | _ => none

def next (t : Tree) : List Frame → Token → Option Parse
  | .list items :: stack, .comma => some ⟨.value, .list (t :: items) :: stack⟩
  | .list items :: stack, .closeList => some ⟨.after (.list (t :: items).reverse), stack⟩
  | .record fields key :: stack, .comma => some ⟨.key ((key, t) :: fields), stack⟩
  | .record fields key :: stack, .closeRecord =>
    some ⟨.after (.record ((key, t) :: fields).reverse), stack⟩
  | _, _ => none

def step (p : Parse) (token : Token) : Option Parse :=
  match p.expect, token with
  | .value, token => value p.stack token
  | .firstItem, .closeList => some ⟨.after (.list []), p.stack⟩
  | .firstItem, token => value (.list [] :: p.stack) token
  | .firstKey, .closeRecord => some ⟨.after (.record []), p.stack⟩
  | .firstKey, .text key => some ⟨.colon [] key, p.stack⟩
  | .key fields, .text key => some ⟨.colon fields key, p.stack⟩
  | .colon fields key, .colon => some ⟨.value, .record fields key :: p.stack⟩
  | .after t, token => next t p.stack token
  | _, _ => none

def parse (text : String) : Option Tree := do
  let tokens ← Token.scan text
  let p ← tokens.foldlM step ⟨.value, []⟩
  match p with
  | ⟨.after t, []⟩ => some t
  | _ => none

end Tree

end Provisioning.Json
