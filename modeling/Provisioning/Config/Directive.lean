import Provisioning.Event
import Provisioning.Json.Reader
import Provisioning.Text.Alphanumeric
import Provisioning.Text.Blank
import Provisioning.Text.Bytes

/-!
# Log levels and directives

The levels that a configuration may name, and the form of a log directive: a target, a span in
brackets, or both, and behind them the least severe level that is logged there. Every level is
logged when none is given. The parts of a directive are found in the text without the white space
around it, but they are cut out of the whole text at the byte offsets found there, so white space in
front moves the cuts.
-/

namespace Provisioning

open Json

namespace Level

/-- The value of decimal digits, of which there is at least one; a plus sign may come first. -/
def digits? (s : List Char) : Option Nat :=
  let ds := match s with
    | '+' :: rest => rest
    | rest => rest
  if !ds.isEmpty && ds.all Char.isDigit then
    some (ds.foldl (fun n d => n * 10 + (d.toNat - '0'.toNat)) 0)
  else none

def ofText? (s : String) : Option Level :=
  match digits? s.toList with
  | some 1 => some .error
  | some 2 => some .warn
  | some 3 => some .info
  | some 4 => some .debug
  | some 5 => some .trace
  | _ => [Level.error, .warn, .info, .debug, .trace].find? fun l =>
    l.text.toList = s.toList.map Char.toUpper

def read : Reader Level := fun s t => (Reader.text s t).bind ofText?

end Level

namespace Directive

/-- Whether a directive may give this level: a level, `off` or its number, or nothing. -/
def isLevel (s : List Char) : Bool :=
  s.isEmpty || (Level.ofText? (String.ofList s)).isSome || Level.digits? s = some 0 ||
    s.map Char.toUpper = "OFF".toList

/-- The part of the whole text from the offset on at which `rest` begins in the trimmed text. There
is none if the offset falls inside a character. -/
def cutFrom? (text rest : List Char) : Option (List Char) :=
  Text.dropBytes? (Text.byteSize (Text.trimChars text) - Text.byteSize rest) text

def isCut (text rest : List Char) : Bool := (cutFrom? text rest).isSome

/-- Whether nothing is left, or an equals sign and a level. A comma may end the level, which reaches
up to the end of the whole text otherwise. -/
def endsInLevel (text : List Char) : List Char → Bool
  | [] => true
  | '=' :: rest =>
    match rest.dropWhile (· ≠ ',') with
    | [] => (cutFrom? text rest).any isLevel
    | [comma] =>
      let size := Text.byteSize rest - Text.byteSize [comma]
      ((cutFrom? text rest).bind (Text.takeBytes? size)).any isLevel
    | _ => false
  | _ => false

/-- Whether the rest of the fields of a span follows, with commas between them and none of them
empty, and then the end of the span. What a field has to hold is not looked at. -/
def endsInFields (text : List Char) (atStart : Bool) : List Char → Bool
  | [] => false
  | c :: rest =>
    if c = '\x7d' then
      !atStart && isCut text (c :: rest) &&
        match rest with
        | ']' :: rest => endsInLevel text rest
        | _ => false
    else if c = ',' then
      !atStart && isCut text (c :: rest) && isCut text rest && endsInFields text true rest
    else endsInFields text false rest

def endsInSpan (text s : List Char) : Bool :=
  isCut text s &&
    match s.dropWhile fun c => c ≠ ']' && c ≠ '\x7b' with
    | ']' :: rest => isCut text (']' :: rest) && endsInLevel text rest
    | c :: rest => isCut text (c :: rest) && isCut text rest && endsInFields text true rest
    | [] => false

def isTargetStart (c : Char) : Bool := Text.isAlphanumeric c || c = '_' || c = ':' || c = '-'

/-- Whether the directive is complete with what follows the first character of its target. A target
reaches up to an equals sign, an opening bracket or a comma at the end. -/
def endsTarget (text s : List Char) : Bool :=
  match s.dropWhile fun c => c ≠ '=' && c ≠ '[' && c ≠ ',' with
  | [] => true
  | [','] => true
  | '[' :: rest => isCut text ('[' :: rest) && endsInSpan text rest
  | rest => isCut text rest && endsInLevel text rest

def isWellFormed (s : String) : Bool :=
  let text := s.toList
  match Text.trimChars text with
  | [] => false
  | '[' :: rest => endsInSpan text rest
  | c :: rest => isTargetStart c && endsTarget text rest

end Directive

end Provisioning
