import Provisioning.Proofs.Classpath.Listing

/-! # Which members are listed

The walk over a hierarchy with any cycles and gaps ends, and the members of a
declared type come from exactly the types that it is a subtype of: each field once,
each signature once from a nearest type that declares it, and the constructors of
the type itself only.
-/

namespace Provisioning.Classpath

variable {decls : List TypeDecl} {d T : TypeDecl}

theorem mem_ancestry_iff_above (hd : d ∈ (ofList decls).types) :
    T ∈ (ofList decls).ancestry d ↔ (ofList decls).Above d T := by
  rw [mem_ancestry_iff (mem_types_iff.mp hd), ← mem_types_iff, Above]

/-- Apart from the types for which the subtype test has rules of its own, the types above a declaration
are those that the test finds. -/
theorem above_iff_isSubtype (hT : T ∈ (ofList decls).types)
    (hprimitive : d.name.isPrimitive = false) (hvoid : d.name.isVoid = false)
    (hbase : T.name.isPrimitive = false) (hobject : T.key ≠ TypeText.object) :
    (ofList decls).Above d T ↔ (ofList decls).isSubtype d.name T.name = true := by
  rw [isSubtype_eq_true_iff, Above]
  constructor
  · rintro ⟨-, hleads⟩
    exact .inr ⟨hprimitive, hbase, hvoid, .inr hleads⟩
  · rintro (hsame | ⟨-, -, -, hT' | hleads⟩)
    · have hkey : d.key = T.key := TypeText.erasure_eq_of_same hsame
      exact ⟨hT, hkey ▸ .refl⟩
    · exact absurd hT' hobject
    · exact ⟨hT, hleads⟩

theorem passed_filter_isField (d T : TypeDecl) :
    (passed d T).filter Member.isField = T.members.filter Member.isField := by
  unfold passed
  split
  · rfl
  · rw [List.filter_filter]
    refine List.filter_congr fun member _ => ?_
    cases member <;> rfl

theorem passed_filter_isConstructor (h : T.key ≠ d.key) :
    (passed d T).filter Member.isConstructor = [] := by
  rw [passed, if_neg h, List.filter_filter, List.filter_eq_nil_iff]
  intro member _
  cases member <;> simp [Member.isConstructor, isInheritable]

/-- What it means that the members of a hierarchy are listed for a declaration. `listing` is the list
of members together with the types that they are from. -/
structure ListsMembers (cp : Classpath) (d : TypeDecl) : Prop where
  ends : ∃ names, Walks cp.parents [d.key] [] names ∧ cp.ancestry d = names.filterMap cp.find?
  visited_iff : ∀ T, T ∈ cp.ancestry d ↔ cp.Above d T
  visited_once : ((cp.ancestry d).map TypeDecl.key).Nodup
  visited_iff_isSubtype : ∀ T ∈ cp.types, d.name.isPrimitive = false → d.name.isVoid = false →
    T.name.isPrimitive = false → T.key ≠ TypeText.object →
      (T ∈ cp.ancestry d ↔ cp.isSubtype d.name T.name = true)
  attributed : (cp.listing d).map Prod.snd = cp.members d
  drawn : ∀ x ∈ cp.listing d, x.1 ∈ cp.ancestry d ∧ x.2 ∈ x.1.members
  signature_once : ((cp.methods d).map Callable.signature).Nodup
  signature_iff : ∀ signature, signature ∈ (cp.methods d).map Callable.signature ↔
    ∃ T ∈ cp.ancestry d, T.Declares signature
  /-- No type that declares the signature is fewer steps away than the one it is listed from. -/
  nearest : ∀ T m, (T, Member.method m) ∈ cp.listing d → ∀ U ∈ cp.ancestry d,
    U.Declares m.signature → NoFarther cp.parents d.key T.key U.key
  fields : (cp.listing d).filter (fun x => x.2.isField) =
    (cp.ancestry d).flatMap fun T => (T.members.filter Member.isField).map (T, ·)
  constructors : (cp.listing d).filter (fun x => x.2.isConstructor) =
    (d.members.filter Member.isConstructor).map (d, ·)

theorem method_mem_members_iff (hd : (ofList decls).find? d.key = some d) {m : Callable} :
    m ∈ (ofList decls).methods d ↔ ∃ T, (T, Member.method m) ∈ (ofList decls).listing d := by
  rw [methods, ← map_snd_listing hd, List.mem_filterMap]
  simp only [List.mem_map, Prod.exists, exists_eq_right]
  constructor
  · rintro ⟨member, ⟨T, hT⟩, hm⟩
    cases member with
    | method k =>
      cases hm
      exact ⟨T, hT⟩
    | constructor k => cases hm
    | field v => cases hm
  · rintro ⟨T, hT⟩
    exact ⟨.method m, ⟨T, hT⟩, rfl⟩

/-- Whatever cycles, gaps and repetitions the hierarchy has, the members that are listed for a declared
type are those of the types that it is a subtype of: of the methods with one signature one from a type
at the smallest number of steps, every field, and the constructors of the type itself. -/
theorem members_of_declared (decls : List TypeDecl) (d : TypeDecl) (hd : d ∈ (ofList decls).types) :
    (ofList decls).ListsMembers d := by
  have hfind := mem_types_iff.mp hd
  have hpairwise := pairwise_ancestry hfind
  have hmem : ∀ T, T ∈ (ofList decls).ancestry d ↔ (ofList decls).Above d T := fun _ =>
    mem_ancestry_iff_above hd
  refine
    { ends := exists_walk hfind
      visited_iff := hmem
      visited_once := List.pairwise_map.mpr (hpairwise.imp And.left)
      visited_iff_isSubtype := ?_
      attributed := map_snd_listing hfind
      drawn := fun x hx => mem_of_mem_listing hx
      signature_once := nodup_signature_methods _ d
      signature_iff := ?_
      nearest := ?_
      fields := ?_
      constructors := ?_ }
  · intro T hT hprimitive hvoid hbase hobject
    rw [hmem T, above_iff_isSubtype hT hprimitive hvoid hbase hobject]
  · intro signature
    simp only [List.mem_map, method_mem_members_iff hfind]
    constructor
    · rintro ⟨m, ⟨T, hT⟩, rfl⟩
      obtain ⟨hvisited, hdeclared⟩ := mem_of_mem_listing hT
      exact ⟨T, hvisited, m, hdeclared, rfl⟩
    · rintro ⟨T, hT, hs⟩
      obtain ⟨U, m, hm, hms⟩ := exists_listed hT hs
      exact ⟨m, ⟨U, hm⟩, hms⟩
  · intro T m hm U hU hs
    exact rel_of_mem_listing (fun T => NoFarther.refl T.key) (hpairwise.imp And.right) hm hU hs
  · rw [filter_listing fun _ => rfl]
    simp only [passed_filter_isField]
  · rw [filter_listing fun _ => rfl]
    obtain ⟨rest, hrest⟩ : ∃ rest, (ofList decls).ancestry d = d :: rest := ⟨_, rfl⟩
    rw [hrest, List.pairwise_cons] at hpairwise
    have hnone : (rest.flatMap fun T => ((passed d T).filter Member.isConstructor).map (T, ·)) = [] := by
      refine List.flatMap_eq_nil_iff.mpr fun T hT => ?_
      rw [passed_filter_isConstructor (hpairwise.1 T hT).1.symm, List.map_nil]
    rw [hrest, List.flatMap_cons, hnone, List.append_nil, passed, if_pos rfl]

def cyclicClass : TypeDecl :=
  ((((TypeDecl.ofKind .class "a.Foo").extending "x.Gone").implementing "a.Mid").withMember
    .constructor).withMember (.method "x" "a.X")

def cyclicHierarchy : List TypeDecl :=
  [cyclicClass,
    ((((TypeDecl.ofKind .interface "a.Mid").implementing "a.Foo").implementing "a.Base").withMember
      (.method "x" "a.Any")).withField (.of "limit" "int"),
    ((TypeDecl.ofKind .class "a.Base").withMember .constructor).withMember (.method "y" "a.Y")]

theorem cyclic_members_listed : cyclicClass ∈ (ofList cyclicHierarchy).types ∧
    (ofList cyclicHierarchy).ListsMembers cyclicClass ∧
    ((ofList cyclicHierarchy).methods cyclicClass).map Callable.name = ["x", "y"] ∧
    ((ofList cyclicHierarchy).members cyclicClass).length = 4 := by
  have hd : cyclicClass ∈ (ofList cyclicHierarchy).types := List.mem_cons_self
  exact ⟨hd, members_of_declared cyclicHierarchy cyclicClass hd, by decide, by decide⟩

end Provisioning.Classpath
