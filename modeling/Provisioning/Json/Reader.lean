import Provisioning.Json.Value

/-!
# Readers

Reading a document into a typed value. A reader knows how many nesting levels are left. Parts that a
reader does not ask for are skipped, whatever they hold; a part that has to be set aside until a
later one is known is held first, and then all of it counts.
-/

namespace Provisioning.Json

/-- Where a reader stands: the nesting levels left, and whether the part was held beforehand. -/
structure Scope where
  levels : Nat
  held : Bool
  deriving DecidableEq, Repr

def Scope.top : Scope := ⟨maxNesting, false⟩

def Scope.enter? (s : Scope) : Option Scope :=
  match s.levels with
  | 0 => none
  | levels + 1 => some { s with levels }

abbrev Reader (α : Type) := Scope → Tree → Option α

namespace Reader

variable {α : Type}

def run (r : Reader α) (text : String) : Option α := (Tree.parse text).bind (r Scope.top)

def text : Reader String
  | _, .text s => s
  | _, _ => none

def bool : Reader Bool
  | _, .bool b => some b
  | _, _ => none

def int64 : Reader Int
  | _, .number (some (.whole n)) => if minInt64 ≤ n ∧ n ≤ maxInt64 then some n else none
  | _, _ => none

def char : Reader Char
  | _, .text (some s) => match s.toList with
    | [c] => some c
    | _ => none
  | _, _ => none

def nullable (r : Reader α) : Reader (Option α)
  | _, .null => some none
  | s, t => (r s t).map some

def list (r : Reader α) : Reader (List α)
  | s, .list items => do items.mapM (r (← s.enter?))
  | _, _ => none

def entry (r : Reader α) (s : Scope) (e : Option String × Tree) : Option (String × α) := do
  let key ← e.1
  let a ← r s e.2
  return (key, a)

def dict (r : Reader α) : Reader (Dict α)
  | s, .record entries => do
    let inner ← s.enter?
    let read ← entries.mapM (entry r inner)
    return Dict.ofList read
  | _, _ => none

/-- Whether the document may stand behind a word that is written as a record: null, and in a held
part also the empty record. -/
def isNothing (s : Scope) : Tree → Bool
  | .null => true
  | .record [] => s.held
  | _ => false

/-- One of the given words, written as a text or as a record with the word as its only key. -/
def word (meaning : String → Option α) : Reader α
  | _, .text s => s.bind meaning
  | s, .record [(key, t)] => do
    let inner ← s.enter?
    let a ← key.bind meaning
    guard (isNothing inner t)
    return a
  | _, _ => none

end Reader

structure Fields where
  scope : Scope
  find : String → Option Tree

namespace Fields

variable {α : Type}

def keyed? (entries : List (Option String × Tree)) : Option (List (String × Tree)) :=
  entries.mapM fun e => e.1.map fun key => (key, e.2)

def distinct (names : List String) (entries : List (String × Tree)) : Bool :=
  names.all fun name => (entries.filter (·.1 = name)).length ≤ 1

def lookup (entries : List (String × Tree)) (name : String) : Option Tree :=
  (entries.find? (·.1 = name)).map Prod.snd

def ofRecord? (names : List String) (s : Scope) : Tree → Option Fields
  | .record entries => do
    let scope ← s.enter?
    let entries ← keyed? entries
    guard (distinct names entries)
    return ⟨scope, lookup entries⟩
  | _ => none

def ofList? (names : List String) (s : Scope) : Tree → Option Fields
  | .list items => do
    let scope ← s.enter?
    guard (items.length ≤ names.length)
    return ⟨scope, lookup (names.zip items)⟩
  | _ => none

def of? (names : List String) (s : Scope) : Tree → Option Fields
  | .record entries => ofRecord? names s (.record entries)
  | t => ofList? names s t

def required (f : Fields) (name : String) (r : Reader α) : Option α :=
  (f.find name).bind (r f.scope)

def optional (f : Fields) (name : String) (default : α) (r : Reader α) : Option α :=
  match f.find name with
  | none => some default
  | some t => r f.scope t

end Fields

end Provisioning.Json
