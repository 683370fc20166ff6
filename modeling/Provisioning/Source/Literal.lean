/-!
# Literals

The written form of text and character constants.
-/

namespace Provisioning.Source

def escapeInString (c : Char) : List Char :=
  if c = '"' then ['\\', '"']
  else if c = '\\' then ['\\', '\\']
  else if c = '\n' then ['\\', 'n']
  else if c = '\r' then ['\\', 'r']
  else if c = '\t' then ['\\', 't']
  else [c]

def stringLiteralChars (s : List Char) : List Char :=
  '"' :: (s.flatMap escapeInString ++ ['"'])

def stringLiteral (s : String) : String := String.ofList (stringLiteralChars s.toList)

def escapeInChar (c : Char) : List Char :=
  if c = '\'' then ['\\', '\'']
  else if c = '\\' then ['\\', '\\']
  else if c = '\n' then ['\\', 'n']
  else if c = '\t' then ['\\', 't']
  else [c]

def charLiteral (c : Char) : String := String.ofList ('\'' :: (escapeInChar c ++ ['\'']))

end Provisioning.Source
