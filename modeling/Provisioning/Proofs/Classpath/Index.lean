import Mathlib.Data.Finset.Dedup
import Mathlib.Data.Finset.Card
import Provisioning.Proofs.Classpath.Additions
import Provisioning.Universe

/-! # The index of a classpath

A later declaration takes the place of an earlier one with the same erased name.
Whatever was added, each name stands once, in the order in which the names first
came, and the index tells the places of these names and of nothing else.
-/

namespace Provisioning.Classpath

open Json

theorem eraseDups_concat (names : List String) (name : String) : (names ++ [name]).eraseDups =
    if name ∈ names then names.eraseDups else names.eraseDups ++ [name] := by
  rw [List.eraseDups_append]
  by_cases h : name ∈ names <;> simp [List.removeAll, List.eraseDups_cons, h]

theorem keys_ofList (decls : List TypeDecl) :
    (ofList decls).types.map TypeDecl.key = (decls.map TypeDecl.key).eraseDups := by
  induction decls using List.reverseRecOn with
  | nil => rfl
  | append_singleton decls d ih =>
    rw [ofList_concat, keys_add, ih, List.map_append, List.map_singleton, eraseDups_concat]
    simp only [List.mem_eraseDups]

theorem lastAdded?_eq_none_iff {decls : List TypeDecl} {name : String} :
    lastAdded? decls name = none ↔ ∀ d ∈ decls, d.key ≠ name := by
  simp [lastAdded?]

theorem index_eq_some_iff {cp : Classpath} (h : (cp.types.map TypeDecl.key).Nodup) {name : String}
    {place : Nat} : Dict.get? cp.index name = some place ↔
      ∃ hlt : place < cp.types.length, (cp.types.get ⟨place, hlt⟩).key = name := by
  constructor
  · intro hplace
    exact ⟨lt_of_index hplace, key_of_index hplace⟩
  · rintro ⟨hlt, rfl⟩
    have hmem : (cp.types.get ⟨place, hlt⟩).key ∈ cp.types.map TypeDecl.key :=
      List.mem_map_of_mem (List.get_mem _ _)
    obtain ⟨other, hother⟩ : ∃ other,
        Dict.get? cp.index (cp.types.get ⟨place, hlt⟩).key = some other := by
      rw [cp.index_eq]
      exact Option.isSome_iff_exists.mp (List.isSome_idxOf?.mpr hmem)
    have hkeys := key_of_index hother
    have hget : (cp.types.map TypeDecl.key).get ⟨other, by simpa using lt_of_index hother⟩ =
        (cp.types.map TypeDecl.key).get ⟨place, by simpa using hlt⟩ := by
      simpa using hkeys
    have hsame : other = place := Fin.mk.inj (h.get_inj_iff.mp hget)
    rw [hother, hsame]

/-- What a classpath is after these declarations were added to the empty one. -/
structure Records (cp : Classpath) (decls : List TypeDecl) : Prop where
  distinct : (cp.types.map TypeDecl.key).Nodup
  order : cp.types.map TypeDecl.key = (decls.map TypeDecl.key).eraseDups
  latest : ∀ d ∈ cp.types, lastAdded? decls d.key = some d
  count : cp.types.length = (decls.map TypeDecl.key).toFinset.card
  found : ∀ text, cp.find? text = lastAdded? decls (TypeText.mk text).erasure
  absent : ∀ text, cp.find? text = none ↔ ∀ d ∈ decls, d.key ≠ (TypeText.mk text).erasure
  indexed : ∀ name place, Dict.get? cp.index name = some place ↔
    ∃ hlt : place < cp.types.length, (cp.types.get ⟨place, hlt⟩).key = name

theorem records_ofList (decls : List TypeDecl) : (ofList decls).Records decls := by
  have hnodup := nodup_keys_ofList decls
  have horder := keys_ofList decls
  refine ⟨hnodup, horder, ?_, ?_, find?_ofList decls, ?_, fun _ _ => index_eq_some_iff hnodup⟩
  · intro d hd
    have herased : (TypeText.mk d.key).erasure = d.key := d.name.isErased_erasure
    rw [← mem_types_iff.mp hd, find?_ofList, herased]
  · have hnames : ((ofList decls).types.map TypeDecl.key).toFinset =
        (decls.map TypeDecl.key).toFinset := by
      ext name
      rw [horder, List.mem_toFinset, List.mem_toFinset, List.mem_eraseDups]
    rw [← hnames, List.toFinset_card_of_nodup hnodup, List.length_map]
  · intro text
    rw [find?_ofList, lastAdded?_eq_none_iff]

/-- Declarations can be added one by one, as a list, or as the list in a document, and more of them
later. The classpath then holds the last one of each erased name, in the order in which the names
first came, and its index is exact. -/
theorem records_additions :
    (∀ decls more : List TypeDecl, ((ofList decls).extend more).Records (decls ++ more)) ∧
      ∀ text, read.run text = ((Reader.list TypeDecl.read).run text).map ofList := by
  constructor
  · intro decls more
    have hextend : (ofList decls).extend more = ofList (decls ++ more) :=
      (List.foldl_append).symm
    rw [hextend]
    exact records_ofList _
  · intro text
    unfold read Reader.run
    cases Tree.parse text with
    | none => rfl
    | some t =>
      cases h : Reader.list TypeDecl.read Scope.top t with
      | none => simp [h]
      | some decls => simp [h]

example : ((ofList [.ofKind .class "a.A<T>", .ofKind .class "b.B", .ofKind .interface " a.A"]).types.map
    fun d => (d.name.text, d.isInterface)) = [(" a.A", true), ("b.B", false)] := by
  decide +kernel

end Provisioning.Classpath
