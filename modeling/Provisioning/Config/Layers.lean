import Provisioning.Json.Printer
import Provisioning.Json.Reader

/-!
# Layered configuration

A configuration is a record of sections. Layers are merged in order: records field by field, lists
end to end, and in every other case the later value takes the place of the earlier one.
-/

namespace Provisioning

open Json

mutual

def Json.Value.merge : Value → Value → Value
  | .record fields, .record later => .record (Json.Value.mergeFields fields later)
  | .list items, .list later => .list (items ++ later)
  | _, v => v

/-- Lays fields over others one by one; a field that is new is laid over null. -/
def Json.Value.mergeFields : List (String × Value) → List (String × Value) → List (String × Value)
  | fields, [] => fields
  | fields, (key, v) :: rest =>
    Json.Value.mergeFields
      (Dict.put fields key (Json.Value.merge ((Dict.get? fields key).getD .null) v)) rest

end

structure Config where
  entries : Dict Value
  deriving Repr

namespace Config

def empty : Config := ⟨[]⟩

def read : Reader Config := fun s t =>
  match t.value? s.levels with
  | some (.record entries) => some ⟨entries⟩
  | _ => none

def toValue (c : Config) : Value := .record c.entries

def get (c : Config) (name : String) : Value := (Dict.get? c.entries name).getD .null

def getAs {α : Type} (c : Config) (name : String) (r : Reader α) : Option α :=
  r Scope.top (c.get name).toTree

def set (c : Config) (name : String) (v : Value) : Config := ⟨Dict.put c.entries name v⟩

def merge (c later : Config) : Config := ⟨Json.Value.mergeFields c.entries later.entries⟩

def section? {α : Type} (c : Config) (name : String) (default : α) (r : Reader α) : Option α :=
  (c.getAs name (Reader.nullable r)).map fun found => found.getD default

def pretty (c : Config) : String := c.toValue.pretty

end Config

end Provisioning
