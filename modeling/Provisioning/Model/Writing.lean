import Provisioning.Model.Reading

/-!
# Writing declarations

The values that hold the element model in full: every field is present, also one that holds its
default.
-/

namespace Provisioning

open Json

def Json.Value.ofFields (fields : List (String × Value)) : Value := .record (Dict.ofList fields)

def TypeText.toValue (t : TypeText) : Value := .text t.text

def Modifiers.toValue (s : Modifiers) : Value := .texts (s.toList.map Modifier.keyword)

namespace Constant

def tag (kind : Kind) (value : Value) : Value :=
  .ofFields [("kind", .text kind.keyword), ("value", value)]

mutual

def toValue : Constant → Value
  | .bool b => tag .bool (.bool b)
  | .int n => tag .int (.int n)
  | .char c => tag .char (.text (String.singleton c))
  | .string s => tag .string (.text s)
  | .type t => tag .type t.toValue
  | .enum t constant => tag .enum (.ofFields [("type", t.toValue), ("constant", .text constant)])
  | .array items => tag .array (.list (itemsToValues items))
  | .nested t values =>
    tag .nested (.ofFields [("type", t.toValue), ("values", .record (entriesToValues values))])

def itemsToValues : List Constant → List Value
  | [] => []
  | c :: rest => toValue c :: itemsToValues rest

def entriesToValues : List (String × Constant) → List (String × Value)
  | [] => []
  | (name, c) :: rest => (name, toValue c) :: entriesToValues rest

end

end Constant

def AnnotationUse.toValue (a : AnnotationUse) : Value :=
  .ofFields [("type", a.type.toValue), ("values", .record (Constant.entriesToValues a.values))]

def Variable.fields (v : Variable) : List (String × Value) :=
  [("name", .text v.name), ("type", v.type.toValue), ("modifiers", v.modifiers.toValue),
    ("annotations", .list (v.annotations.map AnnotationUse.toValue))]

def Variable.toValue (v : Variable) : Value := .ofFields v.fields

def Callable.fields (m : Callable) : List (String × Value) :=
  [("name", .text m.name), ("modifiers", m.modifiers.toValue),
    ("return_type", m.returns.toValue),
    ("parameters", .list (m.parameters.map Variable.toValue)),
    ("annotations", .list (m.annotations.map AnnotationUse.toValue))]

def Callable.toValue (m : Callable) : Value := .ofFields m.fields

def Member.toValue : Member → Value
  | .method m => .ofFields (("kind", .text "method") :: m.fields)
  | .constructor m => .ofFields (("kind", .text "constructor") :: m.fields)
  | .field v => .ofFields (("kind", .text "field") :: v.fields)

def TypeDecl.toValue (d : TypeDecl) : Value :=
  .ofFields
    [("name", d.name.toValue), ("kind", .text d.kind.keyword), ("modifiers", d.modifiers.toValue),
      ("superclass", .ofText? (d.superclass.map TypeText.text)),
      ("interfaces", .list (d.interfaces.map TypeText.toValue)),
      ("annotations", .list (d.annotations.map AnnotationUse.toValue)),
      ("members", .list (d.members.map Member.toValue))]

end Provisioning
