import Mathlib.Data.List.Forall2
import Provisioning.Proofs.Module.Declarations

/-! # Runtime values

A runtime value goes from its setter through a field of the builder and an argument
of the constructor into a field of the module, and each of these places is found
by position. So wherever the module lists runtime values, it lists them all, in one
order. Where a value must not be missing, `build` has a guard before the call, and
`create`, which passes no value, is there only if no guard can stop it.
-/

namespace Provisioning

open Source

namespace Source

structure Field.Carries (f : Field) (v : ProvidedValue) : Prop where
  name : f.name = v.name
  type : f.type = v.type

structure Parameter.Carries (x : Parameter) (v : ProvidedValue) : Prop where
  name : x.name = v.name
  type : x.type = v.type

namespace Code

def Stores (s : Code) (name : String) : Prop :=
  s = text ("this." ++ name ++ " = " ++ name)

def Guards (s : Code) (name : String) : Prop :=
  s = [.text ("if (" ++ name ++ " == null) throw new "),
    .type (.class ⟨"java.lang", "NullPointerException", []⟩), .text "(",
    .text (stringLiteral (name ++ " == null")), .text ")"]

def ReturnsNew (s : Code) (type : TypeName) (arguments : List String) : Prop :=
  s = [.text "return new ", .type type, .text ("(" ++ Text.join ", " arguments ++ ")")]

end Code

namespace Class

/-- The class has a field for each value and a single constructor, which stores them all. -/
structure Holds (decl : Class) (values : List ProvidedValue) : Prop where
  fields : List.Forall₂ Field.Carries decl.fields values
  constructor : ∃ k, decl.methods.filter Method.isConstructor = [k] ∧
    List.Forall₂ Parameter.Carries k.parameters values ∧
    List.Forall₂ (fun s v => s.Stores v.name) k.statements values

end Class

end Source

theorem forall₂_map_self {α β : Type} {R : β → α → Prop} {f : α → β} {l : List α}
    (h : ∀ a, R (f a) a) : List.Forall₂ R (l.map f) l :=
  List.forall₂_map_left_iff.mpr (List.forall₂_same.mpr fun a _ => h a)

namespace ModulePlan

variable (p : ModulePlan)

def guards : List Code := (p.runtime.filter fun v => !v.isDefaultable).map nullGuard

theorem forall₂_guards : List.Forall₂ (fun s v => s.Guards v.name) p.guards
    (p.runtime.filter fun v => !v.isDefaultable) := forall₂_map_self fun _ => rfl

variable (markers : Markers)

end ModulePlan

end Provisioning
