/-!
# Pieces of text

Cutting a text at a character or at line ends, joining pieces again, and the last occurrence of a
word.
-/

namespace Provisioning.Text

def pieces (sep : Char) : List Char → List (List Char)
  | [] => [[]]
  | c :: rest =>
    if c = sep then [] :: pieces sep rest
    else match pieces sep rest with
      | [] => [[c]]
      | piece :: more => (c :: piece) :: more

def split (sep : Char) (s : String) : List String :=
  (pieces sep s.toList).map String.ofList

def join (sep : String) : List String → String
  | [] => ""
  | [s] => s
  | s :: rest => s ++ sep ++ join sep rest

def dropReturn (line : List Char) : List Char :=
  if line.getLast? = some '\r' then line.dropLast else line

/-- The lines of a text. A line feed ends a line, with a carriage return before it or without; what
follows the last line feed is a line if it is not empty. -/
def lines (s : String) : List String :=
  let parts := pieces '\n' s.toList
  let ended := parts.dropLast.map dropReturn
  let last := match parts.getLast? with
    | some (c :: rest) => [c :: rest]
    | _ => []
  (ended ++ last).map String.ofList

def beforeLast (word : List Char) : List Char → Option (List Char)
  | [] => if word.isEmpty then some [] else none
  | c :: rest =>
    match beforeLast word rest with
    | some before => some (c :: before)
    | none => if word.isPrefixOf (c :: rest) then some [] else none

def dropSuffix? (word s : String) : Option String :=
  if word.toList.isSuffixOf s.toList then
    some (String.ofList (s.toList.take (s.toList.length - word.toList.length)))
  else none

def decimal (n : Int) : String :=
  if n < 0 then "-" ++ n.natAbs.repr else n.toNat.repr

end Provisioning.Text
