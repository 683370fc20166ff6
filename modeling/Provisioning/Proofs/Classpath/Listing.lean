import Provisioning.Proofs.Classpath.Distance
import Provisioning.Proofs.Classpath.Subtyping
import Provisioning.Proofs.Module.Planning

/-! # The members of a hierarchy

What is listed for a declaration, with the types that it comes from: the walk visits
the declaration and its declared supertypes, each of them once and the nearer ones
first, and of the methods with one signature the first one stays.
-/

namespace Provisioning

def TypeDecl.Declares (d : TypeDecl) (signature : String × List TypeText) : Prop :=
  ∃ m, Member.method m ∈ d.members ∧ m.signature = signature

def Member.isField : Member → Bool
  | .field _ => true
  | _ => false

def Member.isConstructor : Member → Bool
  | .constructor _ => true
  | _ => false

namespace Classpath

/-- The type is the declaration itself or one of its declared supertypes. -/
def Above (cp : Classpath) (d T : TypeDecl) : Prop := T ∈ cp.types ∧ Leads cp.parents d.key T.key

def passed (d T : TypeDecl) : List Member :=
  if T.key = d.key then T.members else T.members.filter isInheritable

def offers (cp : Classpath) (d : TypeDecl) : List (TypeDecl × Member) :=
  (cp.ancestry d).flatMap fun T => (passed d T).map (T, ·)

def keepNew : List (String × List TypeText) → List (TypeDecl × Member) → List (TypeDecl × Member)
  | _, [] => []
  | seen, (T, .method m) :: rest =>
    if seen.contains m.signature then keepNew seen rest
    else (T, .method m) :: keepNew (m.signature :: seen) rest
  | seen, entry :: rest => entry :: keepNew seen rest

/-- The members of a declaration and of its supertypes, each with the type that declares it. -/
def listing (cp : Classpath) (d : TypeDecl) : List (TypeDecl × Member) := keepNew [] (cp.offers d)

section Keeping

variable {seen : List (String × List TypeText)} {entries : List (TypeDecl × Member)}

theorem map_snd_keepNew (seen : List (String × List TypeText)) (entries : List (TypeDecl × Member)) :
    (keepNew seen entries).map Prod.snd = dropOverridden seen (entries.map Prod.snd) := by
  fun_induction keepNew seen entries with
  | case1 seen => rfl
  | case2 seen T m rest h ih =>
    rw [ih, List.map_cons, dropOverridden, if_pos h]
  | case3 seen T m rest h ih =>
    rw [List.map_cons, ih, List.map_cons, dropOverridden, if_neg h]
  | case4 seen entry rest h ih =>
    obtain ⟨T, member⟩ := entry
    cases member with
    | method m => exact absurd rfl (h T m)
    | constructor m => rw [List.map_cons, ih]; rfl
    | field v => rw [List.map_cons, ih]; rfl

theorem mem_of_mem_keepNew {x : TypeDecl × Member} (h : x ∈ keepNew seen entries) : x ∈ entries := by
  fun_induction keepNew seen entries with
  | case1 seen => exact h
  | case2 seen T m rest _ ih => exact List.mem_cons_of_mem _ (ih h)
  | case3 seen T m rest _ ih =>
    rcases List.mem_cons.mp h with rfl | h
    · exact List.mem_cons_self
    · exact List.mem_cons_of_mem _ (ih h)
  | case4 seen entry rest _ ih =>
    rcases List.mem_cons.mp h with rfl | h
    · exact List.mem_cons_self
    · exact List.mem_cons_of_mem _ (ih h)

theorem filter_keepNew {p : Member → Bool} (hp : ∀ m, p (.method m) = false) :
    (keepNew seen entries).filter (fun x => p x.2) = entries.filter (fun x => p x.2) := by
  fun_induction keepNew seen entries with
  | case1 seen => rfl
  | case2 seen T m rest _ ih => rw [ih, List.filter_cons_of_neg (by simp [hp])]
  | case3 seen T m rest _ ih =>
    rw [List.filter_cons_of_neg (by simp [hp]), ih, List.filter_cons_of_neg (by simp [hp])]
  | case4 seen entry rest _ ih => rw [List.filter_cons, List.filter_cons, ih]

theorem exists_kept {T : TypeDecl} {m : Callable} (h : (T, Member.method m) ∈ entries)
    (hm : m.signature ∉ seen) : ∃ U k, (U, Member.method k) ∈ keepNew seen entries ∧
      k.signature = m.signature := by
  fun_induction keepNew seen entries with
  | case1 seen => exact absurd h List.not_mem_nil
  | case2 seen T' k rest hk ih =>
    rcases List.mem_cons.mp h with heq | h
    · cases heq
      exact absurd (List.contains_iff_mem.mp hk) hm
    · exact ih h hm
  | case3 seen T' k rest hk ih =>
    by_cases hs : k.signature = m.signature
    · exact ⟨T', k, List.mem_cons_self, hs⟩
    · rcases List.mem_cons.mp h with heq | h
      · cases heq
        exact absurd rfl hs
      · obtain ⟨U, j, hj, hjs⟩ := ih h (List.not_mem_cons_of_ne_of_not_mem (Ne.symm hs) hm)
        exact ⟨U, j, List.mem_cons_of_mem _ hj, hjs⟩
  | case4 seen entry rest hne ih =>
    rcases List.mem_cons.mp h with rfl | h
    · exact absurd rfl (hne T m)
    · obtain ⟨U, j, hj, hjs⟩ := ih h hm
      exact ⟨U, j, List.mem_cons_of_mem _ hj, hjs⟩

/-- In entries that are ordered by their types, a kept method precedes all others with its
signature. -/
theorem rel_of_mem_keepNew {R : TypeDecl → TypeDecl → Prop} (hrefl : ∀ T, R T T)
    (hR : entries.Pairwise fun x y => R x.1 y.1) {T : TypeDecl} {m : Callable}
    (h : (T, Member.method m) ∈ keepNew seen entries) : m.signature ∉ seen ∧
      ∀ U k, (U, Member.method k) ∈ entries → k.signature = m.signature → R T U := by
  fun_induction keepNew seen entries with
  | case1 seen => exact absurd h List.not_mem_nil
  | case2 seen V j rest hj ih =>
    obtain ⟨hseen, hrest⟩ := ih hR.of_cons h
    refine ⟨hseen, fun U k hk hs => ?_⟩
    rcases List.mem_cons.mp hk with heq | hk
    · cases heq
      exact absurd (List.contains_iff_mem.mp hj) (hs ▸ hseen)
    · exact hrest U k hk hs
  | case3 seen V j rest hj ih =>
    rcases List.mem_cons.mp h with heq | h
    · cases heq
      refine ⟨fun hm => hj (List.contains_iff_mem.mpr hm), fun U k hk _ => ?_⟩
      rcases List.mem_cons.mp hk with heq | hk
      · cases heq
        exact hrefl T
      · exact (List.pairwise_cons.mp hR).1 _ hk
    · obtain ⟨hseen, hrest⟩ := ih hR.of_cons h
      refine ⟨fun hm => hseen (List.mem_cons_of_mem _ hm), fun U k hk hs => ?_⟩
      rcases List.mem_cons.mp hk with heq | hk
      · cases heq
        exact absurd (hs ▸ List.mem_cons_self) hseen
      · exact hrest U k hk hs
  | case4 seen entry rest hne ih =>
    have hentry : ∀ U k, entry ≠ (U, Member.method k) := fun U k => hne U k
    rcases List.mem_cons.mp h with heq | h
    · exact absurd heq.symm (hentry T m)
    · obtain ⟨hseen, hrest⟩ := ih hR.of_cons h
      refine ⟨hseen, fun U k hk hs => ?_⟩
      rcases List.mem_cons.mp hk with heq | hk
      · exact absurd heq.symm (hentry U k)
      · exact hrest U k hk hs

end Keeping

section Ancestry

variable {cp : Classpath} {d T : TypeDecl}

theorem isErased_of_leads {a b : String} (ha : TypeText.IsErased a) (h : Leads cp.parents a b) :
    TypeText.IsErased b := by
  cases h with
  | refl => exact ha
  | tail _ hb => exact isErased_of_mem_parents hb

/-- The types that are visited from a declared one are found under the names of one walk. -/
theorem exists_walk (hd : cp.find? d.key = some d) :
    ∃ names, Walks cp.parents [d.key] [] names ∧ cp.ancestry d = names.filterMap cp.find? := by
  obtain ⟨visited, hwalk, hancestry⟩ := cp.exists_ancestry d
  refine ⟨d.key :: visited, .visit List.not_mem_nil ?_, ?_⟩
  · rwa [List.nil_append, parents, hd]
  · rw [hancestry, List.filterMap_cons_some hd]

theorem key_of_walk {names : List String} (h : Walks cp.parents [d.key] [] names) {n : String}
    (hn : n ∈ names) (hT : cp.find? n = some T) : T.key = n := by
  have hleads : Leads cp.parents d.key n := by simpa using (h.mem_iff (by simp)).mp hn
  exact (key_of_find? hT).trans (isErased_of_leads d.name.isErased_erasure hleads)

theorem mem_ancestry_iff (hd : cp.find? d.key = some d) :
    T ∈ cp.ancestry d ↔ cp.find? T.key = some T ∧ Leads cp.parents d.key T.key := by
  obtain ⟨names, hwalk, hancestry⟩ := exists_walk hd
  have hnames : ∀ n, n ∈ names ↔ Leads cp.parents d.key n := fun n => by
    simpa using hwalk.mem_iff (n := n) (by simp)
  rw [hancestry, List.mem_filterMap]
  constructor
  · rintro ⟨n, hn, hT⟩
    rw [key_of_walk hwalk hn hT]
    exact ⟨hT, (hnames n).mp hn⟩
  · rintro ⟨hT, hleads⟩
    exact ⟨T.key, (hnames T.key).mpr hleads, hT⟩

/-- No type is visited twice, and none before one that is fewer steps away. -/
theorem pairwise_ancestry (hd : cp.find? d.key = some d) : (cp.ancestry d).Pairwise fun T U =>
    T.key ≠ U.key ∧ NoFarther cp.parents d.key T.key U.key := by
  obtain ⟨names, hwalk, hancestry⟩ := exists_walk hd
  obtain ⟨visited, hnames, hnodup, -⟩ := hwalk.exists_append
  rw [List.reverse_nil, List.nil_append] at hnames
  have hboth : names.Pairwise fun a b => a ≠ b ∧ NoFarther cp.parents d.key a b :=
    (hnames ▸ hnodup).and hwalk.sorted
  rw [hancestry, List.pairwise_filterMap]
  refine hboth.imp_of_mem ?_
  intro a b ha hb hab T hT U hU
  rw [key_of_walk hwalk ha hT, key_of_walk hwalk hb hU]
  exact hab

theorem method_mem_passed_iff {m : Callable} : .method m ∈ passed d T ↔ .method m ∈ T.members := by
  unfold passed
  split <;> simp [isInheritable]

theorem mem_of_mem_passed {member : Member} (h : member ∈ passed d T) : member ∈ T.members := by
  unfold passed at h
  split at h
  · exact h
  · exact List.mem_of_mem_filter h

theorem method_mem_offers_iff {m : Callable} :
    (T, .method m) ∈ cp.offers d ↔ T ∈ cp.ancestry d ∧ .method m ∈ T.members := by
  simp [offers, method_mem_passed_iff]

theorem pairwise_offers {R : TypeDecl → TypeDecl → Prop} (hrefl : ∀ T, R T T)
    (h : (cp.ancestry d).Pairwise R) : (cp.offers d).Pairwise fun x y => R x.1 y.1 := by
  refine List.pairwise_flatMap.mpr ⟨fun T _ => ?_, h.imp fun {T U} hTU => ?_⟩
  · exact List.pairwise_map.mpr (List.pairwise_of_forall fun _ _ => hrefl T)
  · simp only [List.mem_map]
    rintro _ ⟨_, -, rfl⟩ _ ⟨_, -, rfl⟩
    exact hTU

theorem map_snd_listing (hd : cp.find? d.key = some d) :
    (cp.listing d).map Prod.snd = cp.members d := by
  have hpairwise := pairwise_ancestry hd
  obtain ⟨rest, hrest⟩ : ∃ rest, cp.ancestry d = d :: rest := ⟨_, rfl⟩
  rw [hrest, List.pairwise_cons] at hpairwise
  have hself : passed d d = d.members := if_pos rfl
  have hpassed : ∀ T ∈ rest, passed d T = T.members.filter isInheritable := fun T hT =>
    if_neg (hpairwise.1 T hT).1.symm
  rw [listing, map_snd_keepNew, members, offers, hrest, List.drop_one, List.tail_cons,
    List.flatMap_cons, List.map_append, List.map_flatMap, hself]
  simp only [List.map_map, Function.comp_def, List.map_id']
  rw [List.flatMap_congr hpassed]

theorem mem_of_mem_listing {x : TypeDecl × Member} (h : x ∈ cp.listing d) :
    x.1 ∈ cp.ancestry d ∧ x.2 ∈ x.1.members := by
  obtain ⟨T, hT, hx⟩ := List.mem_flatMap.mp (mem_of_mem_keepNew h)
  obtain ⟨member, hmember, rfl⟩ := List.mem_map.mp hx
  exact ⟨hT, mem_of_mem_passed hmember⟩

/-- The type of a listed method is the first one, in any order that the visited types are in, of
those that declare the signature. -/
theorem rel_of_mem_listing {R : TypeDecl → TypeDecl → Prop} (hrefl : ∀ T, R T T)
    (hR : (cp.ancestry d).Pairwise R) {m : Callable} (h : (T, .method m) ∈ cp.listing d)
    {U : TypeDecl} (hU : U ∈ cp.ancestry d) (hs : U.Declares m.signature) : R T U := by
  obtain ⟨k, hk, hks⟩ := hs
  rw [listing] at h
  exact (rel_of_mem_keepNew hrefl (pairwise_offers hrefl hR) h).2 U k
    (method_mem_offers_iff.mpr ⟨hU, hk⟩) hks

theorem exists_listed {signature : String × List TypeText} (hT : T ∈ cp.ancestry d)
    (hs : T.Declares signature) : ∃ U m, (U, .method m) ∈ cp.listing d ∧ m.signature = signature := by
  obtain ⟨m, hm, rfl⟩ := hs
  exact exists_kept (method_mem_offers_iff.mpr ⟨hT, hm⟩) List.not_mem_nil

theorem filter_listing {p : Member → Bool} (hp : ∀ m, p (.method m) = false) :
    (cp.listing d).filter (fun x => p x.2) =
      (cp.ancestry d).flatMap fun T => ((passed d T).filter p).map (T, ·) := by
  rw [listing, filter_keepNew hp, offers, List.filter_flatMap]
  simp only [List.filter_map, Function.comp_def]

end Ancestry

end Classpath

end Provisioning
