import Provisioning.Dict
import Provisioning.Json.Tree

/-!
# Values

A document whose content is held: texts and numbers that stand for something, records as
dictionaries. A record with a repeated key keeps the last value.
-/

namespace Provisioning.Json

inductive Value
  | null
  | bool (b : Bool)
  | number (n : Number)
  | text (s : String)
  | list (items : List Value)
  | record (fields : List (String × Value))
  deriving Repr

def maxNesting : Nat := 127

namespace Tree

mutual

/-- The value of a document in which lists and records are nested at most `levels` deep. -/
def value? (levels : Nat) : Tree → Option Value
  | .null => some .null
  | .bool b => some (.bool b)
  | .number n => n.map .number
  | .text s => s.map .text
  | .list items =>
    match levels with
    | 0 => none
    | levels + 1 => (values? levels items).map .list
  | .record fields =>
    match levels with
    | 0 => none
    | levels + 1 => (entries? levels fields).map fun entries => .record (Dict.ofList entries)

def values? (levels : Nat) : List Tree → Option (List Value)
  | [] => some []
  | t :: rest => do
    let v ← value? levels t
    let vs ← values? levels rest
    return v :: vs

def entries? (levels : Nat) : List (Option String × Tree) → Option (List (String × Value))
  | [] => some []
  | (key, t) :: rest => do
    let key ← key
    let v ← value? levels t
    let vs ← entries? levels rest
    return (key, v) :: vs

end

def readable (levels : Nat) (t : Tree) : Bool := (value? levels t).isSome

end Tree

namespace Value

mutual

def toTree : Value → Tree
  | .null => .null
  | .bool b => .bool b
  | .number n => .number (some n)
  | .text s => .text (some s)
  | .list items => .list (listToTrees items)
  | .record fields => .record (fieldsToTrees fields)

def listToTrees : List Value → List Tree
  | [] => []
  | v :: rest => toTree v :: listToTrees rest

def fieldsToTrees : List (String × Value) → List (Option String × Tree)
  | [] => []
  | (key, v) :: rest => (some key, toTree v) :: fieldsToTrees rest

end

def parse (text : String) : Option Value := (Tree.parse text).bind (Tree.value? maxNesting)

def int (n : Int) : Value := .number (.whole n)

def texts (items : List String) : Value := .list (items.map .text)

def ofText? : Option String → Value
  | some s => .text s
  | none => .null

end Value

end Provisioning.Json
