import Provisioning.Json.Value

/-!
# Written values

Two layouts of a value: compact on one line, and indented by two blanks with one item or field per
line. Record fields keep the order of the dictionary.
-/

namespace Provisioning.Json

def hexDigit (n : Nat) : Char :=
  if n < 10 then Char.ofNat ('0'.toNat + n) else Char.ofNat ('a'.toNat + (n - 10))

/-- A character inside a string. Quotes, backslashes and control characters are escaped, everything
else stands for itself. -/
def escapeChar (c : Char) : List Char :=
  if c = '"' then ['\\', '"']
  else if c = '\\' then ['\\', '\\']
  else if c = '\x08' then ['\\', 'b']
  else if c = '\x0c' then ['\\', 'f']
  else if c = '\n' then ['\\', 'n']
  else if c = '\r' then ['\\', 'r']
  else if c = '\t' then ['\\', 't']
  else if c.toNat < 0x20 then ['\\', 'u', '0', '0', hexDigit (c.toNat / 16), hexDigit (c.toNat % 16)]
  else [c]

def quote (s : String) : String :=
  String.ofList ('"' :: s.toList.flatMap escapeChar ++ ['"'])

namespace Value

mutual

def compact : Value → String
  | .null => "null"
  | .bool true => "true"
  | .bool false => "false"
  | .number n => n.render
  | .text s => quote s
  | .list items => "[" ++ compactItems items ++ "]"
  | .record fields => "\x7b" ++ compactFields fields ++ "\x7d"

def compactItems : List Value → String
  | [] => ""
  | [v] => compact v
  | v :: rest => compact v ++ "," ++ compactItems rest

def compactFields : List (String × Value) → String
  | [] => ""
  | [(key, v)] => quote key ++ ":" ++ compact v
  | (key, v) :: rest => quote key ++ ":" ++ compact v ++ "," ++ compactFields rest

end

def newLine (level : Nat) : String := "\n" ++ String.ofList (List.replicate (2 * level) ' ')

mutual

def indented (level : Nat) : Value → String
  | .null => "null"
  | .bool true => "true"
  | .bool false => "false"
  | .number n => n.render
  | .text s => quote s
  | .list [] => "[]"
  | .list items => "[" ++ indentedItems (level + 1) items ++ newLine level ++ "]"
  | .record [] => "\x7b\x7d"
  | .record fields => "\x7b" ++ indentedFields (level + 1) fields ++ newLine level ++ "\x7d"

def indentedItems (level : Nat) : List Value → String
  | [] => ""
  | [v] => newLine level ++ indented level v
  | v :: rest => newLine level ++ indented level v ++ "," ++ indentedItems level rest

def indentedFields (level : Nat) : List (String × Value) → String
  | [] => ""
  | [(key, v)] => newLine level ++ quote key ++ ": " ++ indented level v
  | (key, v) :: rest =>
    newLine level ++ quote key ++ ": " ++ indented level v ++ "," ++ indentedFields level rest

end

def pretty (v : Value) : String := indented 0 v

end Value

end Provisioning.Json
