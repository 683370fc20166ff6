import Provisioning.Proofs.Module.RuntimeValues
import Provisioning.Proofs.Source.TypeReading

/-! # Checked types and written types

A return type is checked by its whole text, but it is written as the type that its
head is read as. The two differ on texts that hold a keyword and something more,
such as white space around it. There a value of type `void` is accepted, and a
primitive value is compared with null.
-/

namespace Provisioning

open Source
open Source.TypeName (parse keywords ReadsAs)

namespace TypeText

variable {t : TypeText} {keyword : String}

/-- The text is read as the keyword without being the keyword. -/
def Pads (t : TypeText) (keyword : String) : Prop := ReadsAs t.text keyword ∧ t.text ≠ keyword

theorem readsAs_self (keyword : String) : ReadsAs keyword keyword :=
  ⟨[], [], by simp, nofun, nofun, nofun⟩

theorem parse_of_eq (h : keyword ∈ keywords) (ht : t.text = keyword) :
    parse t.text = .primitive keyword :=
  TypeName.parse_eq_primitive_iff.mpr ⟨h, ht ▸ readsAs_self keyword⟩

theorem text_eq_iff_of_not_pads (h : keyword ∈ keywords) :
    (t.text = keyword ↔ parse t.text = .primitive keyword) ↔ ¬ t.Pads keyword := by
  constructor
  · rintro hiff ⟨hreads, hne⟩
    exact hne (hiff.mpr (TypeName.parse_eq_primitive_iff.mpr ⟨h, hreads⟩))
  · intro hpads
    refine ⟨parse_of_eq h, fun hparse => ?_⟩
    by_contra hne
    exact hpads ⟨(TypeName.parse_eq_primitive_iff.mp hparse).2, hne⟩

theorem isVoid_iff_parse :
    (t.isVoid = true ↔ parse t.text = .primitive "void") ↔ ¬ t.Pads "void" := by
  rw [← text_eq_iff_of_not_pads (by decide), isVoid, decide_eq_true_eq]

theorem isPrimitive_parse_iff :
    (parse t.text).isPrimitive = true ↔ ∃ k ∈ primitives, parse t.text = .primitive k := by
  constructor
  · intro h
    cases hp : parse t.text with
    | primitive k =>
      rw [hp] at h
      have hvoid : k ≠ "void" := of_decide_eq_true h
      have hk := (TypeName.parse_eq_primitive_iff.mp hp).1
      exact ⟨k, (List.mem_cons.mp hk).resolve_left hvoid, rfl⟩
    | _ =>
      rw [hp] at h
      cases h
  · rintro ⟨k, hk, hp⟩
    have hvoid : ∀ k ∈ primitives, k ≠ "void" := by decide
    rw [hp]
    exact decide_eq_true (hvoid k hk)

theorem isPrimitive_eq_parse_iff :
    t.isPrimitive = (parse t.text).isPrimitive ↔ ∀ k ∈ primitives, ¬ t.Pads k := by
  have hkeyword : ∀ k ∈ primitives, k ∈ keywords := fun k hk => List.mem_cons_of_mem _ hk
  have hchecked : t.isPrimitive = true ↔ t.text ∈ primitives := List.contains_iff_mem
  rw [Bool.eq_iff_iff, hchecked, isPrimitive_parse_iff]
  constructor
  · rintro hiff k hk ⟨hreads, hne⟩
    have hparse := TypeName.parse_eq_primitive_iff.mpr ⟨hkeyword k hk, hreads⟩
    have htext := parse_of_eq (hkeyword _ (hiff.mpr ⟨k, hk, hparse⟩)) rfl
    rw [hparse] at htext
    injection htext with he
    exact hne he.symm
  · intro hpads
    constructor
    · exact fun h => ⟨t.text, h, parse_of_eq (hkeyword _ h) rfl⟩
    · rintro ⟨k, hk, hparse⟩
      exact (text_eq_iff_of_not_pads (hkeyword k hk)).mpr (hpads k hk) |>.mpr hparse ▸ hk

end TypeText

/-- Whether a value is guarded is told from its written type as well, unless the text of a primitive
type is padded. -/
theorem ProvidedValue.isDefaultable_eq_false_iff {v : ProvidedValue} :
    (v.isDefaultable = false ↔ v.nullable = false ∧ v.type.isPrimitive = false) ↔
      (v.nullable = false → ∀ k ∈ TypeText.primitives, ¬ v.returns.Pads k) := by
  rw [← TypeText.isPrimitive_eq_parse_iff, ProvidedValue.isDefaultable, ProvidedValue.type]
  cases v.nullable <;> cases v.returns.isPrimitive <;>
    cases (parse v.returns.text).isPrimitive <;> simp

/-- On every text the checks agree with the type that is read exactly when the text pads no keyword.
So a provision of an accepted plan is written as `void` exactly when it pads `void`. The method that
builds the module is guards and the call that makes it, and a runtime value has a guard just as its
written type wants it exactly when it may be null or pads no primitive type. -/
theorem Env.checks_agree_iff {env : Env} {c : Container} {p : ModulePlan}
    (h : (env.plan c).result = .ok p) :
    (∀ t : TypeText,
      ((t.isVoid = true ↔ parse t.text = .primitive "void") ↔ ¬ t.Pads "void") ∧
      (t.isPrimitive = (parse t.text).isPrimitive ↔ ∀ k ∈ TypeText.primitives, ¬ t.Pads k)) ∧
    (∀ a ∈ p.provisions, a.value.type ≠ .primitive "void" ↔ ¬ a.value.returns.Pads "void") ∧
    ∃ guards call, p.buildMethod.statements = guards ++ [call] ∧
      call.ReturnsNew (.class p.moduleClass) (p.runtime.map ProvidedValue.name) ∧
      List.Forall₂ (fun s v => s.Guards v.name) guards
        (p.runtime.filter fun v => !v.isDefaultable) ∧
      ∀ v ∈ p.runtime,
        ((v.isDefaultable = false ↔ v.nullable = false ∧ v.type.isPrimitive = false) ↔
          (v.nullable = false → ∀ k ∈ TypeText.primitives, ¬ v.returns.Pads k)) := by
  refine ⟨fun t => ⟨TypeText.isVoid_iff_parse, TypeText.isPrimitive_eq_parse_iff⟩, ?_, ?_⟩
  · intro a ha
    obtain ⟨-, rfl⟩ := Env.plan_eq_ok h
    obtain ⟨m, -, hm⟩ := List.mem_filterMap.mp ha
    have hpasses := (Env.classify_eq_some_iff.mp (Env.provision?_eq_some.mp hm)).1
    obtain ⟨hvalue, -⟩ := Env.classify_eq_some (Env.provision?_eq_some.mp hm)
    have hvoid : a.value.returns.isVoid = false := by
      rw [hvalue]
      exact hpasses.returns
    -- the check has let the value pass, so it agrees with the type unless that is `void`
    rw [← TypeText.isVoid_iff_parse, hvoid]
    simp [ProvidedValue.type]
  · exact ⟨p.guards, _, rfl, rfl, p.forall₂_guards,
      fun v _ => ProvidedValue.isDefaultable_eq_false_iff⟩

def spacedString : TypeDecl :=
  ((bareContainer "a.FooComponent").withMember
    ((Callable.method "title" "\tjava.lang.String ").annotated
      (.of Markers.default.runtime))).withMember
    ((Callable.method "count" "int").annotated (.of Markers.default.runtime))

theorem spacedString_checked_as_written : ∃ p,
    ((Env.single spacedString).plan (.of .default spacedString)).result = .ok p ∧
    (∀ a ∈ p.provisions, a.value.type ≠ .primitive "void") ∧
    p.runtime.map ProvidedValue.isDefaultable = [false, true] ∧
    ∀ v ∈ p.runtime, v.isDefaultable = false ↔ v.nullable = false ∧ v.type.isPrimitive = false := by
  have hplan : ((Env.single spacedString).plan (.of .default spacedString)).result = .ok _ := rfl
  obtain ⟨htexts, hvoid, -, -, -, -, -, hguarded⟩ := Env.checks_agree_iff hplan
  refine ⟨_, hplan, ?_, rfl, ?_⟩
  · intro a ha
    refine (hvoid a ha).mpr ((htexts a.value.returns).1.mp ?_)
    rcases List.mem_pair.mp ha with rfl | rfl
    · exact iff_of_false (by decide) fun h => by cases h
    · exact iff_of_false (by decide) fun h => absurd (TypeName.primitive.inj h) (by decide)
  · intro v hv
    refine (hguarded v hv).mpr fun _ => (htexts v.returns).2.mp ?_
    rcases List.mem_pair.mp hv with rfl | rfl
    · rfl
    · rfl

def spacedKeywords : TypeDecl :=
  ((bareContainer "a.FooComponent").withMember
    ((Callable.method "nothing" " void").annotated (.of Markers.default.runtime))).withMember
    ((Callable.method "count" "int ").annotated (.of Markers.default.runtime))

/-- The plan is accepted. A value is written as `void`, and one that is written as `int` has a
guard. -/
theorem spacedKeywords_mistaken : ∃ p nothing count,
    ((Env.single spacedKeywords).plan (.of .default spacedKeywords)).result = .ok p ∧
    p.runtime = [nothing, count] ∧ nothing.type = .primitive "void" ∧
    count.nullable = false ∧ count.type.isPrimitive = true ∧
    ∃ first second call, p.buildMethod.statements = [first, second, call] ∧
      second.Guards count.name ∧
      call.ReturnsNew (.class p.moduleClass) [nothing.name, count.name] := by
  exact ⟨_, _, _, rfl, rfl, rfl, rfl, rfl, _, _, _, rfl, rfl, rfl⟩

end Provisioning
