import Provisioning.Proofs.Classpath.Members

/-! # Overridden methods

A method is listed from the first type on the walk that declares its signature. A
type that overrides it may stand farther away, when the overridden type can also be
reached without passing it. So the most derived declaration is listed only where no
such shortcut leads to an overridden method.
-/

namespace Provisioning.Classpath

def Acyclic (decls : List TypeDecl) : Prop := ∀ a, ¬ Relation.TransGen (Extends decls) a a

def ProperSubtype (cp : Classpath) (U T : TypeDecl) : Prop :=
  U.key ≠ T.key ∧ Leads cp.parents U.key T.key

/-- No method is listed that another type above the declaration overrides. -/
def ListsMostDerived (cp : Classpath) (d : TypeDecl) : Prop :=
  ∀ T m, (T, Member.method m) ∈ cp.listing d →
    ∀ U, cp.Above d U → cp.ProperSubtype U T → ¬ U.Declares m.signature

def VisitedBefore (cp : Classpath) (d V T : TypeDecl) : Prop := [V, T].Sublist (cp.ancestry d)

variable {cp : Classpath} {d T U : TypeDecl}

theorem not_sublist_swap {α : Type} {l : List α} (hl : l.Nodup) {a b : α} (h : [a, b].Sublist l) :
    ¬ [b, a].Sublist l := by
  induction l with
  | nil => cases h
  | cons c l ih =>
    obtain ⟨hc, hl⟩ := List.nodup_cons.mp hl
    intro h'
    cases h with
    | cons _ h =>
      cases h' with
      | cons _ h' => exact ih hl h h'
      | cons_cons _ h' => exact hc (h.subset (List.mem_cons_of_mem a List.mem_cons_self))
    | cons_cons _ h =>
      cases h' with
      | cons _ h' => exact hc (h'.subset (List.mem_cons_of_mem b List.mem_cons_self))
      | cons_cons _ h' => exact hc (h.subset List.mem_cons_self)

theorem nodup_ancestry (hd : cp.find? d.key = some d) : (cp.ancestry d).Nodup :=
  (pairwise_ancestry hd).imp fun h heq => h.1 (congrArg TypeDecl.key heq)

theorem eq_or_visitedBefore {m : Callable} (h : (T, .method m) ∈ cp.listing d)
    (hU : U ∈ cp.ancestry d) (hs : U.Declares m.signature) : T = U ∨ cp.VisitedBefore d T U := by
  have hR : (cp.ancestry d).Pairwise fun T U => T = U ∨ cp.VisitedBefore d T U :=
    List.pairwise_iff_forall_sublist.mpr fun h => .inr h
  exact rel_of_mem_listing (fun _ => .inl rfl) hR h hU hs

theorem not_visitedBefore {m : Callable} (hd : cp.find? d.key = some d)
    (h : (T, .method m) ∈ cp.listing d) (hs : U.Declares m.signature) :
    ¬ cp.VisitedBefore d U T := by
  intro hbefore
  have hnodup := nodup_ancestry hd
  rcases eq_or_visitedBefore h (hbefore.subset List.mem_cons_self) hs with rfl | hT
  · exact (List.nodup_cons.mp (hnodup.sublist hbefore)).1 List.mem_cons_self
  · exact not_sublist_swap hnodup hbefore hT

/-- Where all ways up to a type are equally long, a subtype is nearer than its supertypes. -/
theorem climbs_lt_of_properSubtype
    (hT : ∀ n k, Climbs cp.parents d.key n T.key → Climbs cp.parents d.key k T.key → n = k)
    (hsub : cp.ProperSubtype U T) {n k : Nat} (hn : Climbs cp.parents d.key n T.key)
    (hk : Climbs cp.parents d.key k U.key) : k < n := by
  obtain ⟨hne, hleads⟩ := hsub
  obtain ⟨j, hj⟩ := leads_iff_exists_climbs.mp hleads
  have hlength : n = k + j := hT n (k + j) hn (hk.trans hj)
  rcases Nat.eq_zero_or_pos j with rfl | hpos
  · exact absurd hj.eq_source.symm hne
  · omega

/-- For a declared type the most derived declarations are listed exactly when of every method that a
type above it overrides some declaration is visited before the overridden one. They are listed
wherever all ways up from the type to one and the same type have the same number of steps. -/
theorem listsMostDerived_iff (decls : List TypeDecl) (d : TypeDecl)
    (hd : d ∈ (ofList decls).types) :
    ((ofList decls).ListsMostDerived d ↔
      ∀ T U signature, (ofList decls).Above d T → (ofList decls).Above d U →
        T.Declares signature → U.Declares signature → (ofList decls).ProperSubtype U T →
          ∃ V, V.Declares signature ∧ (ofList decls).VisitedBefore d V T) ∧
    ((∀ T, (ofList decls).Above d T → ∀ n k, Climbs (ofList decls).parents d.key n T.key →
        Climbs (ofList decls).parents d.key k T.key → n = k) →
      (ofList decls).ListsMostDerived d) := by
  have hfind := mem_types_iff.mp hd
  have hlists := members_of_declared decls d hd
  refine ⟨⟨?_, ?_⟩, ?_⟩
  · intro h T U signature hT hU hTs hUs hsub
    obtain ⟨V, m, hm, rfl⟩ := exists_listed ((hlists.visited_iff T).mpr hT) hTs
    refine ⟨V, ⟨m, (mem_of_mem_listing hm).2, rfl⟩, ?_⟩
    rcases eq_or_visitedBefore hm ((hlists.visited_iff T).mpr hT) hTs with rfl | hbefore
    · exact absurd hUs (h V m hm U hU hsub)
    · exact hbefore
  · intro h T m hm U hU hsub hUs
    obtain ⟨hvisited, hdeclared⟩ := mem_of_mem_listing hm
    obtain ⟨V, hV, hbefore⟩ :=
      h T U m.signature ((hlists.visited_iff T).mp hvisited) hU ⟨m, hdeclared, rfl⟩ hUs hsub
    exact not_visitedBefore hfind hm hV hbefore
  · intro hlengths T m hm U hU hsub hUs
    have hT := (hlists.visited_iff T).mp (mem_of_mem_listing hm).1
    obtain ⟨k, hk⟩ := leads_iff_exists_climbs.mp hU.2
    obtain ⟨n, hle, hn⟩ := hlists.nearest T m hm U ((hlists.visited_iff U).mpr hU) hUs k hk
    have hlt : k < n := climbs_lt_of_properSubtype (hlengths T hT) hsub hn hk
    omega

theorem acyclic_of_rank {decls : List TypeDecl} (rank : String → Nat)
    (h : ∀ e ∈ decls, ∀ s ∈ e.supertypes, rank e.key < rank s.erasure) : Acyclic decls := by
  have hedge : ∀ a b, Extends decls a b → rank a < rank b := by
    rintro a b ⟨e, s, he, hs, rfl⟩
    obtain ⟨hmem, rfl⟩ := mem_of_lastAdded? he
    exact h e hmem s (mem_supertypes_iff.mpr hs)
  have hpath : ∀ a b, Relation.TransGen (Extends decls) a b → rank a < rank b := by
    intro a b hab
    induction hab with
    | single hb => exact hedge _ _ hb
    | tail _ hb ih => exact ih.trans (hedge _ _ hb)
  exact fun a ha => Nat.lt_irrefl _ (hpath a a ha)

def twoBases (first second : String) : TypeDecl :=
  ((TypeDecl.ofKind .interface "a.Foo").implementing first).implementing second

def wideBase : TypeDecl := (TypeDecl.ofKind .interface "a.Base").withMember (.method "x" "a.Wide")

def narrowMid : TypeDecl :=
  ((TypeDecl.ofKind .interface "a.Mid").implementing "a.Base").withMember (.method "x" "a.Narrow")

def relisted (first second : String) : List TypeDecl := [twoBases first second, narrowMid, wideBase]

theorem midFirst_listsMostDerived :
    twoBases "a.Mid" "a.Base" ∈ (ofList (relisted "a.Mid" "a.Base")).types ∧
    (ofList (relisted "a.Mid" "a.Base")).ListsMostDerived (twoBases "a.Mid" "a.Base") ∧
    ((ofList (relisted "a.Mid" "a.Base")).methods (twoBases "a.Mid" "a.Base")).map Callable.returns =
      [⟨"a.Narrow"⟩] := by
  have hd : twoBases "a.Mid" "a.Base" ∈ (ofList (relisted "a.Mid" "a.Base")).types :=
    List.mem_cons_self
  refine ⟨hd, (listsMostDerived_iff _ _ hd).1.mpr ?_, by decide⟩
  intro T U signature hT hU hTs hUs hsub
  have htypes : (ofList (relisted "a.Mid" "a.Base")).types =
      [twoBases "a.Mid" "a.Base", narrowMid, wideBase] := rfl
  have hbare : ¬ (twoBases "a.Mid" "a.Base").Declares signature := fun ⟨_, hm, _⟩ =>
    absurd hm List.not_mem_nil
  have hT' := hT.1
  have hU' := hU.1
  rw [htypes] at hT' hU'
  simp only [List.mem_cons, List.not_mem_nil, or_false] at hT' hU'
  rcases hT' with rfl | rfl | rfl
  · exact absurd hTs hbare
  · rcases hU' with rfl | rfl | rfl
    · exact absurd hUs hbare
    · exact absurd rfl hsub.1
    · -- nothing is above the base
      rcases Relation.ReflTransGen.cases_head hsub.2 with h | ⟨b, hb, -⟩
      · exact absurd h hsub.1
      · exact absurd hb List.not_mem_nil
  · rcases hU' with rfl | rfl | rfl
    · exact absurd hUs hbare
    · refine ⟨narrowMid, hUs, ?_⟩
      exact List.sublist_cons_self _ _
    · exact absurd rfl hsub.1

/-- If the base is written first, its declaration is listed although the other interface overrides
it. -/
theorem baseFirst_lists_overridden :
    Acyclic (relisted "a.Base" "a.Mid") ∧
    twoBases "a.Base" "a.Mid" ∈ (ofList (relisted "a.Base" "a.Mid")).types ∧
    ¬ (ofList (relisted "a.Base" "a.Mid")).ListsMostDerived (twoBases "a.Base" "a.Mid") := by
  refine ⟨?_, List.mem_cons_self, ?_⟩
  · exact acyclic_of_rank (fun name => ["a.Foo", "a.Mid", "a.Base"].idxOf name) (by decide)
  · intro h
    have hlisted : (wideBase, Member.method (.method "x" "a.Wide")) ∈
        (ofList (relisted "a.Base" "a.Mid")).listing (twoBases "a.Base" "a.Mid") :=
      List.mem_cons_self
    have habove : (ofList (relisted "a.Base" "a.Mid")).Above (twoBases "a.Base" "a.Mid") narrowMid :=
      ⟨List.mem_cons_of_mem _ List.mem_cons_self, .single (by decide)⟩
    have hsub : (ofList (relisted "a.Base" "a.Mid")).ProperSubtype narrowMid wideBase :=
      ⟨by decide, .single (by decide)⟩
    exact h wideBase _ hlisted narrowMid habove hsub ⟨_, List.mem_cons_self, rfl⟩

end Provisioning.Classpath
