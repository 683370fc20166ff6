import Provisioning.Text.Blank

/-!
# Types as they are written

A type is named by its text, such as `java.util.List<java.lang.String>`. Its erasure is the name
without the type arguments; declarations are found by erasure.
-/

namespace Provisioning

structure TypeText where
  text : String
  deriving DecidableEq, Repr, Inhabited

namespace TypeText

def primitives : List String :=
  ["boolean", "byte", "short", "int", "long", "char", "float", "double"]

def object : String := "java.lang.Object"

def void : TypeText := ⟨"void"⟩

def eraseChars (s : List Char) : List Char := Text.trimChars (s.takeWhile (· ≠ '<'))

def erasure (t : TypeText) : String := String.ofList (eraseChars t.text.toList)

/-- Whether the text is exactly the name of a primitive type. -/
def isPrimitive (t : TypeText) : Bool := primitives.contains t.text

def isVoid (t : TypeText) : Bool := t.text = "void"

def same (a b : TypeText) : Bool := Text.trim a.text = Text.trim b.text

end TypeText

end Provisioning
