import Provisioning.Proofs.Classpath.Additions

/-! # Subtypes are what is reached

The subtype test against the hierarchy as a graph: its edges go from the erased
name of a declaration to the erasures of its direct supertypes. Apart from the
cases that the test decides by the texts alone, it answers whether there is a path
in this graph, whatever cycles and dead ends the graph has.
-/

namespace Provisioning.Classpath

variable {decls : List TypeDecl}

/-- The declaration last added under the name `a` has a direct supertype with the erasure `b`. -/
def Extends (decls : List TypeDecl) (a b : String) : Prop :=
  ∃ d s, lastAdded? decls a = some d ∧ (d.superclass = some s ∨ s ∈ d.interfaces) ∧ s.erasure = b

theorem mem_supertypes_iff {d : TypeDecl} {s : TypeText} :
    s ∈ d.supertypes ↔ d.superclass = some s ∨ s ∈ d.interfaces := by
  rw [TypeDecl.supertypes, List.mem_append, Option.mem_toList]

theorem mem_parents_iff {cp : Classpath} {a b : String} :
    b ∈ cp.parents a ↔ ∃ d, cp.find? a = some d ∧ ∃ s ∈ d.supertypes, s.erasure = b := by
  unfold parents
  cases cp.find? a with
  | none => simp
  | some d => simp

theorem extends_iff {a b : String} (ha : TypeText.IsErased a) :
    Extends decls a b ↔ b ∈ (ofList decls).parents a := by
  rw [mem_parents_iff, find?_ofList, ha, Extends]
  simp only [mem_supertypes_iff]
  grind

theorem leads_iff {a b : String} (ha : TypeText.IsErased a) :
    Leads (ofList decls).parents a b ↔ Relation.ReflTransGen (Extends decls) a b := by
  constructor
  · intro h
    induction h using Relation.ReflTransGen.head_induction_on with
    | refl => exact .refl
    | head hac _ ih => exact .head ((extends_iff ha).mpr hac) (ih (isErased_of_mem_parents hac))
  · intro h
    induction h using Relation.ReflTransGen.head_induction_on with
    | refl => exact .refl
    | head hac _ ih =>
      have hc := (extends_iff ha).mp hac
      exact .head hc (ih (isErased_of_mem_parents hc))

/-- The search for supertypes ends on every hierarchy. A type is a subtype of another one exactly when
their texts are equal up to outer white space, or when neither is primitive, the first is not `void`,
and the second is `java.lang.Object` or is reached from the first over any number of edges. -/
theorem isSubtype_iff_path (decls : List TypeDecl) (a b : TypeText) :
    Walks (ofList decls).parents [a.erasure] [] ((ofList decls).lineage a.erasure) ∧
      ((ofList decls).isSubtype a b = true ↔
        Text.trim a.text = Text.trim b.text ∨
          (a.isPrimitive = false ∧ b.isPrimitive = false ∧ a.isVoid = false ∧
            (b.erasure = "java.lang.Object" ∨
              Relation.ReflTransGen (Extends decls) a.erasure b.erasure))) := by
  refine ⟨walks_lineage _ a.isErased_erasure, ?_⟩
  rw [isSubtype_eq_true_iff, leads_iff a.isErased_erasure]
  simp only [TypeText.same, decide_eq_true_eq, TypeText.object]

end Provisioning.Classpath
