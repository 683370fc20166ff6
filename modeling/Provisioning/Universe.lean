import Provisioning.Classpath
import Provisioning.Model.Writing
import Provisioning.Round.Processor

/-!
# Universes

The declarations of one compilation and the roots of its rounds. Without rounds there is a single one
with every type as a root.
-/

namespace Provisioning

open Json

def Classpath.read : Reader Classpath := fun s t => do
  return .ofList (← Reader.list TypeDecl.read s t)

structure Universe where
  types : List TypeDecl
  rounds : Option (List (List String))
  deriving Repr

namespace Universe

def read : Reader Universe := fun s t => do
  let fields ← Fields.of? ["types", "rounds"] s t
  let types ← fields.optional "types" [] (Reader.list TypeDecl.read)
  let rounds ← fields.optional "rounds" none
    (Reader.nullable (Reader.list (Reader.list Reader.text)))
  return ⟨types, rounds⟩

def toValue (u : Universe) : Value :=
  .ofFields
    [("types", .list (u.types.map TypeDecl.toValue)),
      ("rounds", match u.rounds with
        | some rounds => .list (rounds.map .texts)
        | none => .null)]

def classpath (u : Universe) : Classpath := .ofList u.types

def roundList (u : Universe) : List Round :=
  match u.rounds with
  | some rounds => rounds.map Round.of
  | none => [.of (u.types.map TypeDecl.key)]

end Universe

end Provisioning
