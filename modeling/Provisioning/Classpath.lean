import Provisioning.Model.Decl

/-!
# The classpath

The declarations that are known, found by the erasure of their names through an index, and the
hierarchy they span. The hierarchy is walked breadth-first over erased names: the superclass of a
type comes before its interfaces, every name is met once, and a name without a declaration leads
nowhere. Subtyping and inheritance both follow this walk.
-/

namespace Provisioning

/-- The known declarations, in the order in which their names were first added. The index tells the
place of the declaration that an erased name refers to. -/
structure Classpath where
  types : List TypeDecl
  index : Dict Nat
  index_eq : ∀ name, Dict.get? index name = (types.map TypeDecl.key).idxOf? name
  deriving Repr

namespace Classpath

def empty : Classpath := ⟨[], [], fun _ => rfl⟩

section Index

variable {cp : Classpath} {name : String} {place : Nat}

theorem lt_of_index (h : Dict.get? cp.index name = some place) : place < cp.types.length := by
  obtain ⟨hlt, -⟩ := List.idxOf?_eq_some_iff.mp ((cp.index_eq name).symm.trans h)
  simpa using hlt

theorem key_of_index (h : Dict.get? cp.index name = some place) :
    (cp.types.get ⟨place, lt_of_index h⟩).key = name := by
  obtain ⟨_, hkey, -⟩ := List.idxOf?_eq_some_iff.mp ((cp.index_eq name).symm.trans h)
  simpa using hkey

theorem keys_set {d : TypeDecl} (h : Dict.get? cp.index d.key = some place) :
    (cp.types.set place d).map TypeDecl.key = cp.types.map TypeDecl.key := by
  have hlt : place < (cp.types.map TypeDecl.key).length := by simpa using lt_of_index h
  have hkey : d.key = (cp.types.map TypeDecl.key)[place] := by
    simpa using (key_of_index h).symm
  rw [List.map_set, hkey, List.set_getElem_self]

theorem index_concat {d : TypeDecl} (h : Dict.get? cp.index d.key = none) (name : String) :
    Dict.get? (Dict.put cp.index d.key cp.types.length) name =
      ((cp.types ++ [d]).map TypeDecl.key).idxOf? name := by
  have hnew : (cp.types.map TypeDecl.key).findIdx? (· == d.key) = none :=
    (cp.index_eq d.key).symm.trans h
  have hold : Dict.get? cp.index name = (cp.types.map TypeDecl.key).findIdx? (· == name) :=
    cp.index_eq name
  have hconcat : ((cp.types ++ [d]).map TypeDecl.key).idxOf? name =
      ((cp.types.map TypeDecl.key).findIdx? (· == name)).or
        (if d.key = name then some cp.types.length else none) := by
    simp [List.idxOf?, List.findIdx?_append]
  rw [Dict.get?_put, hconcat, hold]
  by_cases hname : name = d.key
  · subst hname
    rw [if_pos rfl, if_pos rfl, hnew, Option.none_or]
  · rw [if_neg hname, if_neg (Ne.symm hname), Option.or_none]

end Index

/-- Adds a declaration: in the place of an earlier one with the same erased name, or at the end. -/
def add (cp : Classpath) (d : TypeDecl) : Classpath :=
  match h : Dict.get? cp.index d.key with
  | some place => ⟨cp.types.set place d, cp.index, fun name => by rw [keys_set h, cp.index_eq]⟩
  | none => ⟨cp.types ++ [d], Dict.put cp.index d.key cp.types.length, index_concat h⟩

def ofList (types : List TypeDecl) : Classpath := types.foldl add empty

def find? (cp : Classpath) (name : String) : Option TypeDecl :=
  match h : Dict.get? cp.index (TypeText.mk name).erasure with
  | some place => some (cp.types.get ⟨place, lt_of_index h⟩)
  | none => none

/-- What an addition does: it takes the place of the declaration of the same name, or it is the first
one of its name and stands at the end. -/
theorem add_cases (cp : Classpath) (d : TypeDecl) :
    (∃ place, Dict.get? cp.index d.key = some place ∧
      (cp.add d).types = cp.types.set place d ∧ (cp.add d).index = cp.index) ∨
    (Dict.get? cp.index d.key = none ∧ (cp.add d).types = cp.types ++ [d] ∧
      (cp.add d).index = Dict.put cp.index d.key cp.types.length) := by
  unfold add
  split
  · rename_i place h
    exact .inl ⟨place, h, rfl, rfl⟩
  · rename_i h
    exact .inr ⟨h, rfl, rfl⟩

theorem find?_eq_bind (cp : Classpath) (name : String) : cp.find? name =
    (Dict.get? cp.index (TypeText.mk name).erasure).bind fun place => cp.types[place]? := by
  unfold find?
  split
  · rename_i place h
    simp only [h, Option.bind_some, List.getElem?_eq_getElem (lt_of_index h), List.get_eq_getElem]
  · rename_i h
    simp only [h, Option.bind_none]

theorem find?_eq (cp : Classpath) (name : String) :
    cp.find? name = cp.types.find? fun d => d.key = (TypeText.mk name).erasure := by
  rw [find?_eq_bind, cp.index_eq, List.idxOf?, List.findIdx?_map,
    List.find?_eq_bind_findIdx?_getElem?]
  rfl

def parents (cp : Classpath) (name : String) : List String :=
  match cp.find? name with
  | some d => d.supertypes.map TypeText.erasure
  | none => []

/-- Meets the names of the queue in order and appends the parents of each new one. -/
def walk (parents : String → List String) : Nat → List String → List String → List String
  | 0, _, met => met.reverse
  | _ + 1, [], met => met.reverse
  | steps + 1, name :: queue, met =>
    if met.contains name then walk parents steps queue met
    else walk parents steps (queue ++ parents name) (name :: met)

def edges (cp : Classpath) : Nat := (cp.types.flatMap TypeDecl.supertypes).length

/-- The names met from one name on, itself first. Every declaration puts its supertypes into the
queue once, so one more step than there are supertypes is enough. -/
def lineage (cp : Classpath) (name : String) : List String :=
  walk cp.parents (cp.edges + 1) [name] []

/-- Whether `candidate` is `base` or one of its subtypes. Apart from the outer white space, type
arguments do not matter. Primitive types and `void` are subtypes of themselves only, everything else
is a subtype of `java.lang.Object`. -/
def isSubtype (cp : Classpath) (candidate base : TypeText) : Bool :=
  if candidate.same base then true
  else if candidate.isPrimitive || base.isPrimitive || candidate.isVoid then false
  else if base.erasure = TypeText.object then true
  else (cp.lineage candidate.erasure).contains base.erasure

def ancestry (cp : Classpath) (d : TypeDecl) : List TypeDecl :=
  let names := walk cp.parents (cp.edges + d.supertypes.length + 1)
    (d.supertypes.map TypeText.erasure) [d.key]
  d :: (names.drop 1).filterMap cp.find?

def lookups (cp : Classpath) (d : TypeDecl) : List String :=
  (cp.ancestry d).flatMap fun e => e.supertypes.map TypeText.erasure

def dropOverridden : List (String × List TypeText) → List Member → List Member
  | _, [] => []
  | seen, .method m :: rest =>
    if seen.contains m.signature then dropOverridden seen rest
    else .method m :: dropOverridden (m.signature :: seen) rest
  | seen, member :: rest => member :: dropOverridden seen rest

def isInheritable : Member → Bool
  | .constructor _ => false
  | _ => true

/-- The members of a declaration and of its supertypes. Of the methods with one signature the first
one that is met is listed. Constructors are not inherited. -/
def members (cp : Classpath) (d : TypeDecl) : List Member :=
  dropOverridden [] (d.members ++
    ((cp.ancestry d).drop 1).flatMap fun e => e.members.filter isInheritable)

def methods (cp : Classpath) (d : TypeDecl) : List Callable :=
  (cp.members d).filterMap Member.method?

end Classpath

end Provisioning
