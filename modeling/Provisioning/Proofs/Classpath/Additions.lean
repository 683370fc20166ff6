import Mathlib.Data.List.Nodup
import Provisioning.Proofs.Classpath.Growth

/-! # What was added

A classpath is made by adding declarations one by one. Under every erased name it
holds the declaration that was added last, and it holds it once.
-/

namespace Provisioning.Classpath

def lastAdded? (decls : List TypeDecl) (name : String) : Option TypeDecl :=
  (decls.filter fun d => d.key = name).getLast?

theorem ofList_concat (decls : List TypeDecl) (d : TypeDecl) :
    ofList (decls ++ [d]) = (ofList decls).add d := by
  simp [ofList]

theorem lastAdded?_concat (decls : List TypeDecl) (d : TypeDecl) (name : String) :
    lastAdded? (decls ++ [d]) name = if d.key = name then some d else lastAdded? decls name := by
  by_cases h : d.key = name <;> simp [lastAdded?, h]

theorem mem_of_lastAdded? {decls : List TypeDecl} {name : String} {d : TypeDecl}
    (h : lastAdded? decls name = some d) : d ∈ decls ∧ d.key = name := by
  simpa using List.mem_of_getLast? h

/-- A look-up finds what was added last under the erasure of the name. -/
theorem find?_ofList (decls : List TypeDecl) (name : String) :
    (ofList decls).find? name = lastAdded? decls (TypeText.mk name).erasure := by
  induction decls using List.reverseRecOn with
  | nil => rfl
  | append_singleton decls d ih => rw [ofList_concat, find?_add, lastAdded?_concat, ih]

theorem keys_add (cp : Classpath) (d : TypeDecl) : (cp.add d).types.map TypeDecl.key =
    if d.key ∈ cp.types.map TypeDecl.key then cp.types.map TypeDecl.key
    else cp.types.map TypeDecl.key ++ [d.key] := by
  have hmem : (Dict.get? cp.index d.key).isSome ↔ d.key ∈ cp.types.map TypeDecl.key := by
    rw [cp.index_eq, List.isSome_idxOf?]
  rcases cp.add_cases d with ⟨place, hplace, htypes, -⟩ | ⟨hnew, htypes, -⟩
  · rw [hplace] at hmem
    rw [htypes, keys_set hplace, if_pos (hmem.mp rfl)]
  · rw [hnew] at hmem
    rw [htypes, List.map_append, if_neg fun h => Bool.false_ne_true (hmem.mpr h)]
    rfl

theorem nodup_keys_ofList (decls : List TypeDecl) :
    ((ofList decls).types.map TypeDecl.key).Nodup := by
  induction decls using List.reverseRecOn with
  | nil => exact List.nodup_nil
  | append_singleton decls d ih =>
    rw [ofList_concat, keys_add]
    split
    · exact ih
    · rename_i hd
      rw [← List.concat_eq_append]
      exact List.Nodup.concat hd ih

theorem mem_types_iff {decls : List TypeDecl} {d : TypeDecl} :
    d ∈ (ofList decls).types ↔ (ofList decls).find? d.key = some d := by
  constructor
  · intro hd
    have herased : (TypeText.mk d.key).erasure = d.key := d.name.isErased_erasure
    obtain ⟨e, he⟩ : ∃ e, (ofList decls).find? d.key = some e := by
      rw [find?_eq]
      refine Option.isSome_iff_exists.mp (List.find?_isSome.mpr ⟨d, hd, ?_⟩)
      simpa using herased.symm
    have hkey : e.key = d.key := (key_of_find? he).trans herased
    have hsame := List.inj_on_of_nodup_map (nodup_keys_ofList decls)
      (mem_of_find? he) hd hkey
    rw [he, hsame]
  · exact mem_of_find?

end Provisioning.Classpath
