import Provisioning.Json.Number

/-!
# Tokens

Cutting a document into tokens, one character at a time. A string or a number can be well formed and
still stand for nothing: a string with an unpaired surrogate escape, a number beyond the doubles. The
token then holds `none`, and it depends on the place in the document whether that matters.
-/

namespace Provisioning.Json

inductive Token
  | openList
  | closeList
  | openRecord
  | closeRecord
  | comma
  | colon
  | null
  | bool (b : Bool)
  | number (n : Option Number)
  | text (s : Option String)
  deriving DecidableEq, Repr

namespace Token

inductive Piece
  | char (c : Char)
  | unit (n : Nat)
  deriving DecidableEq, Repr

def isHighSurrogate (n : Nat) : Bool := 0xd800 ≤ n && n < 0xdc00

def isLowSurrogate (n : Nat) : Bool := 0xdc00 ≤ n && n < 0xe000

/-- The characters of the pieces; a high surrogate needs a low one right behind it, and a low one
stands nowhere else. -/
def chars? : List Piece → Option (List Char)
  | [] => some []
  | .char c :: rest => (chars? rest).map (c :: ·)
  | .unit high :: .unit low :: rest =>
    if isHighSurrogate high then
      if isLowSurrogate low then
        (chars? rest).map (Char.ofNat (0x10000 + (high - 0xd800) * 0x400 + (low - 0xdc00)) :: ·)
      else none
    else if isLowSurrogate high then none
    else (chars? (.unit low :: rest)).map (Char.ofNat high :: ·)
  | .unit n :: rest =>
    if isHighSurrogate n || isLowSurrogate n then none
    else (chars? rest).map (Char.ofNat n :: ·)

/-- What the scanner is in the middle of. Pieces and characters are kept last first. -/
inductive Mode
  | between
  | string (pieces : List Piece)
  | escape (pieces : List Piece)
  | hex (pieces : List Piece) (count : Nat) (value : Nat)
  | number (chars : List Char)
  | word (chars : List Char)

structure Scan where
  mode : Mode
  tokens : List Token

def isSpace (c : Char) : Bool := c = ' ' || c = '\t' || c = '\n' || c = '\r'

def isNumberChar (c : Char) : Bool :=
  c.isDigit || c = '-' || c = '+' || c = '.' || c = 'e' || c = 'E'

def punctuation? : Char → Option Token
  | '[' => some .openList
  | ']' => some .closeList
  | '\x7b' => some .openRecord
  | '\x7d' => some .closeRecord
  | ',' => some .comma
  | ':' => some .colon
  | _ => none

def start (tokens : List Token) (c : Char) : Option Scan :=
  if isSpace c then some ⟨.between, tokens⟩
  else if c = '"' then some ⟨.string [], tokens⟩
  else if c = '-' || c.isDigit then some ⟨.number [c], tokens⟩
  else if c.isAlpha then some ⟨.word [c], tokens⟩
  else (punctuation? c).map fun t => ⟨.between, t :: tokens⟩

def number? (chars : List Char) : Option Token :=
  (Numeral.ofChars? chars).map fun n => .number n.value?

def word? (chars : List Char) : Option Token :=
  if chars = "null".toList then some .null
  else if chars = "true".toList then some (.bool true)
  else if chars = "false".toList then some (.bool false)
  else none

def simpleEscape? : Char → Option Char
  | '"' => some '"'
  | '\\' => some '\\'
  | '/' => some '/'
  | 'b' => some '\x08'
  | 'f' => some '\x0c'
  | 'n' => some '\n'
  | 'r' => some '\r'
  | 't' => some '\t'
  | _ => none

def hexDigit? (c : Char) : Option Nat :=
  if c.isDigit then some (c.toNat - '0'.toNat)
  else if 'a' ≤ c ∧ c ≤ 'f' then some (c.toNat - 'a'.toNat + 10)
  else if 'A' ≤ c ∧ c ≤ 'F' then some (c.toNat - 'A'.toNat + 10)
  else none

def step (s : Scan) (c : Char) : Option Scan :=
  match s.mode with
  | .between => start s.tokens c
  | .string pieces =>
    if c = '"' then some ⟨.between, .text ((chars? pieces.reverse).map String.ofList) :: s.tokens⟩
    else if c = '\\' then some ⟨.escape pieces, s.tokens⟩
    else if c.toNat < 0x20 then none
    else some ⟨.string (.char c :: pieces), s.tokens⟩
  | .escape pieces =>
    if c = 'u' then some ⟨.hex pieces 0 0, s.tokens⟩
    else (simpleEscape? c).map fun e => ⟨.string (.char e :: pieces), s.tokens⟩
  | .hex pieces count value =>
    (hexDigit? c).map fun d =>
      if count = 3 then ⟨.string (.unit (value * 16 + d) :: pieces), s.tokens⟩
      else ⟨.hex pieces (count + 1) (value * 16 + d), s.tokens⟩
  | .number chars =>
    if isNumberChar c then some ⟨.number (c :: chars), s.tokens⟩
    else (number? chars.reverse).bind fun t => start (t :: s.tokens) c
  | .word chars =>
    if c.isAlpha then some ⟨.word (c :: chars), s.tokens⟩
    else (word? chars.reverse).bind fun t => start (t :: s.tokens) c

def finish (s : Scan) : Option (List Token) :=
  match s.mode with
  | .between => some s.tokens.reverse
  | .number chars => (number? chars.reverse).map fun t => (t :: s.tokens).reverse
  | .word chars => (word? chars.reverse).map fun t => (t :: s.tokens).reverse
  | _ => none

def scan (text : String) : Option (List Token) :=
  (text.toList.foldlM step ⟨.between, []⟩).bind finish

end Token

end Provisioning.Json
