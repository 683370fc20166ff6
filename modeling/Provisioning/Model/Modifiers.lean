/-!
# Modifiers

The modifiers of a declaration, a set that is always listed in one order.
-/

namespace Provisioning

inductive Modifier
  | «public»
  | «protected»
  | «private»
  | «abstract»
  | «static»
  | «final»
  deriving DecidableEq, Repr

namespace Modifier

def all : List Modifier := [.public, .protected, .private, .abstract, .static, .final]

def keyword : Modifier → String
  | .public => "public"
  | .protected => "protected"
  | .private => "private"
  | .abstract => "abstract"
  | .static => "static"
  | .final => "final"

def ofKeyword? (word : String) : Option Modifier := all.find? (·.keyword = word)

end Modifier

structure Modifiers where
  isPublic : Bool
  isProtected : Bool
  isPrivate : Bool
  isAbstract : Bool
  isStatic : Bool
  isFinal : Bool
  deriving DecidableEq, Repr, Inhabited

namespace Modifiers

def empty : Modifiers := ⟨false, false, false, false, false, false⟩

def contains (s : Modifiers) : Modifier → Bool
  | .public => s.isPublic
  | .protected => s.isProtected
  | .private => s.isPrivate
  | .abstract => s.isAbstract
  | .static => s.isStatic
  | .final => s.isFinal

def insert (s : Modifiers) : Modifier → Modifiers
  | .public => { s with isPublic := true }
  | .protected => { s with isProtected := true }
  | .private => { s with isPrivate := true }
  | .abstract => { s with isAbstract := true }
  | .static => { s with isStatic := true }
  | .final => { s with isFinal := true }

def ofList (modifiers : List Modifier) : Modifiers := modifiers.foldl insert empty

def toList (s : Modifiers) : List Modifier := Modifier.all.filter s.contains

@[simp] theorem contains_empty (m : Modifier) : empty.contains m = false := by cases m <;> rfl

@[simp] theorem contains_insert (s : Modifiers) (m n : Modifier) :
    (s.insert m).contains n = (decide (n = m) || s.contains n) := by
  cases m <;> cases n <;> rfl

theorem ofList_toList (s : Modifiers) : ofList s.toList = s := by
  obtain ⟨a, b, c, d, e, f⟩ := s
  cases a <;> cases b <;> cases c <;> cases d <;> cases e <;> cases f <;> rfl

end Modifiers

end Provisioning
