import Provisioning.Proofs.Classpath.Walk

/-! # A growing classpath

Declarations under new names are added to a classpath. What was found is found as
before, and what was a subtype stays one, although a new declaration may close a
chain that led nowhere. The members of a declaration stay the same unless one of
the types above it names a new declaration.
-/

namespace Provisioning.Classpath

variable {cp : Classpath} {more : List TypeDecl}

def extend (cp : Classpath) (more : List TypeDecl) : Classpath := more.foldl add cp

def AllNew (cp : Classpath) (more : List TypeDecl) : Prop :=
  ∀ d ∈ more, d.key ∉ cp.types.map TypeDecl.key

theorem find?_add (cp : Classpath) (d : TypeDecl) (name : String) : (cp.add d).find? name =
    if d.key = (TypeText.mk name).erasure then some d else cp.find? name := by
  rw [find?_eq_bind, find?_eq_bind]
  rcases cp.add_cases d with ⟨place, hplace, htypes, hindex⟩ | ⟨hnew, htypes, hindex⟩
  · rw [htypes, hindex]
    by_cases hd : d.key = (TypeText.mk name).erasure
    · rw [if_pos hd, ← hd, hplace, Option.bind_some, List.getElem?_set_self (lt_of_index hplace)]
    · rw [if_neg hd]
      cases hother : Dict.get? cp.index (TypeText.mk name).erasure with
      | none => rfl
      | some other =>
        have hne : place ≠ other := by
          rintro rfl
          exact hd ((key_of_index hplace).symm.trans (key_of_index hother))
        rw [Option.bind_some, Option.bind_some, List.getElem?_set_ne hne]
  · rw [htypes, hindex, Dict.get?_put]
    by_cases hd : d.key = (TypeText.mk name).erasure
    · rw [if_pos hd, if_pos hd.symm, Option.bind_some, List.getElem?_concat_length]
    · rw [if_neg hd, if_neg (Ne.symm hd)]
      cases hother : Dict.get? cp.index (TypeText.mk name).erasure with
      | none => rfl
      | some other =>
        rw [Option.bind_some, Option.bind_some, List.getElem?_append_left (lt_of_index hother)]

theorem find?_extend_of_ne {name : String}
    (h : ∀ d ∈ more, d.key ≠ (TypeText.mk name).erasure) :
    (cp.extend more).find? name = cp.find? name := by
  induction more generalizing cp with
  | nil => rfl
  | cons d rest ih =>
    obtain ⟨hd, hrest⟩ := List.forall_mem_cons.mp h
    have hnext : (cp.extend (d :: rest)).find? name = (cp.add d).find? name := ih hrest
    rw [hnext, find?_add, if_neg hd]

theorem find?_extend_of_some (hnew : cp.AllNew more) {name : String} {d : TypeDecl}
    (h : cp.find? name = some d) : (cp.extend more).find? name = some d := by
  rw [find?_extend_of_ne, h]
  intro e he hkey
  refine hnew e he ?_
  rw [hkey, ← key_of_find? h]
  exact List.mem_map_of_mem (mem_of_find? h)

theorem parents_extend_of_mem (hnew : cp.AllNew more) {a b : String} (h : b ∈ cp.parents a) :
    b ∈ (cp.extend more).parents a := by
  unfold parents at h ⊢
  cases hf : cp.find? a with
  | none =>
    rw [hf] at h
    exact absurd h List.not_mem_nil
  | some d =>
    rw [hf] at h
    rw [find?_extend_of_some hnew hf]
    exact h

theorem isSubtype_extend (hnew : cp.AllNew more) {a b : TypeText} (h : cp.isSubtype a b = true) :
    (cp.extend more).isSubtype a b = true := by
  rw [isSubtype_eq_true_iff] at h ⊢
  rcases h with hsame | ⟨ha, hb, hvoid, hobject | hleads⟩
  · exact .inl hsame
  · exact .inr ⟨ha, hb, hvoid, .inl hobject⟩
  · refine .inr ⟨ha, hb, hvoid, .inr ?_⟩
    exact Relation.ReflTransGen.mono (fun _ _ => parents_extend_of_mem hnew) _ _ hleads

section Members

variable {d : TypeDecl}

theorem supertypes_subset_lookups {e : TypeDecl} (he : e ∈ cp.ancestry d) :
    ∀ n ∈ e.supertypes.map TypeText.erasure, n ∈ cp.lookups d :=
  fun _ hn => List.mem_flatMap.mpr ⟨e, he, hn⟩

/-- The types above a declaration stay the same as long as none of them names a new one. -/
theorem ancestry_extend (hfar : ∀ e ∈ more, e.key ∉ cp.lookups d) :
    (cp.extend more).ancestry d = cp.ancestry d := by
  obtain ⟨visited, hwalk, hancestry⟩ := cp.exists_ancestry d
  obtain ⟨visited', hwalk', hancestry'⟩ := (cp.extend more).exists_ancestry d
  have hnamed : ∀ n ∈ d.key :: visited, n ∉ [d.key] → n ∈ cp.lookups d := by
    intro n hn hnew
    rcases hwalk.origin hn with hmet | hqueue | ⟨m, hm, hfresh, hparent⟩
    · exact absurd hmet hnew
    · refine supertypes_subset_lookups ?_ n hqueue
      rw [hancestry]
      exact List.mem_cons_self
    · unfold parents at hparent
      cases hf : cp.find? m with
      | none =>
        rw [hf] at hparent
        exact absurd hparent List.not_mem_nil
      | some e =>
        rw [hf] at hparent
        have hmv : m ∈ visited :=
          (List.mem_cons.mp hm).resolve_left fun h => hfresh (List.mem_singleton.mpr h)
        refine supertypes_subset_lookups ?_ n hparent
        rw [hancestry]
        exact List.mem_cons_of_mem d (List.mem_filterMap.mpr ⟨m, hmv, hf⟩)
  have hfind : ∀ n ∈ d.key :: visited, n ∉ [d.key] →
      (cp.extend more).find? n = cp.find? n := by
    intro n hn hnew
    have hlookup := hnamed n hn hnew
    obtain ⟨e, -, hne⟩ := List.mem_flatMap.mp hlookup
    obtain ⟨t, -, rfl⟩ := List.mem_map.mp hne
    refine find?_extend_of_ne fun f hf hkey => hfar f hf ?_
    rw [hkey, t.isErased_erasure]
    exact hlookup
  have hsame : Walks (cp.extend more).parents (d.supertypes.map TypeText.erasure) [d.key]
      (d.key :: visited) := by
    refine hwalk.congr fun n hn hnew => ?_
    rw [parents, parents, hfind n hn hnew]
  obtain rfl : visited' = visited := (List.cons.inj (hwalk'.unique hsame)).2
  obtain ⟨_, hvisited, -, hdisjoint⟩ := hwalk.exists_append
  rw [hancestry, hancestry']
  congr 1
  refine List.filterMap_congr fun n hn => hfind n (List.mem_cons_of_mem _ hn) ?_
  obtain rfl := (List.cons.inj hvisited).2
  exact hdisjoint n hn

theorem lookups_extend (hfar : ∀ e ∈ more, e.key ∉ cp.lookups d) :
    (cp.extend more).lookups d = cp.lookups d := by
  rw [lookups, lookups, ancestry_extend hfar]

theorem methods_extend (hfar : ∀ e ∈ more, e.key ∉ cp.lookups d) :
    (cp.extend more).methods d = cp.methods d := by
  rw [methods, methods, members, members, ancestry_extend hfar]

end Members

end Provisioning.Classpath
