import Provisioning.Proofs.Classpath.Walk
import Provisioning.Proofs.Module.Acceptance
import Provisioning.Proofs.Source.Segments
import Provisioning.Proofs.Source.TypeSpelling

/-! # Constructed instances

The class to construct is inspected under the erasure of the implementation, and the
instance is created of the type that the whole text is read as. A text of type
arguments and brackets is erased to the name of a class and read as an array of it,
and then there is no instance of the class to create.
-/

namespace Provisioning

open Source
open Source.TypeName (parse keywords isNameChar Spells IsArray IsBounded innermost)

def Source.TypeName.IsOf (raw : ClassName) : TypeName → Prop
  | .class name => name = raw
  | .parameterized name _ => name = raw
  | _ => False

/-- A name of letters, digits and points alone that is no keyword. -/
def IsTypeName (name : String) : Prop :=
  (∀ c ∈ name.toList, isNameChar c = true) ∧ name ∉ keywords

namespace Source.TypeName

theorem IsOf.not_isArray {raw : ClassName} {t : TypeName} (h : t.IsOf raw) : ¬ t.IsArray := by
  rintro ⟨e, rfl⟩
  exact h

theorem takeWhile_of_guess_eq {name : String}
    (h : ClassName.guess (String.ofList (name.toList.takeWhile isNameChar)) = .guess name) :
    ∀ c ∈ name.toList, isNameChar c = true := by
  intro c hc
  by_contra hn
  -- points are lost on the way, but no other character is
  have hpoint : c ≠ '.' := by
    rintro rfl
    exact hn (by decide)
  have hmem := (ClassName.mem_canonical_guess_iff hpoint name).mpr hc
  rw [← h, ClassName.mem_canonical_guess_iff hpoint, String.toList_ofList] at hmem
  exact hn (List.mem_takeWhile_imp hmem)

/-- A text whose erasure is the name of a type is read as this class or as an array of it. -/
theorem innermost_of_isTypeName {t : TypeText} (h : IsTypeName t.erasure) :
    (parse t.text).innermost = .class (.guess t.erasure) ∨
      ∃ arguments, (parse t.text).innermost = .parameterized (.guess t.erasure) arguments := by
  obtain ⟨hchars, hk⟩ := h
  have hheads := innermost_parse t
  dsimp only at hheads
  rw [List.takeWhile_eq_self_iff.mpr hchars, String.ofList_toList] at hheads
  rcases hheads with ⟨hq, -⟩ | ⟨-, hkeyword, -⟩ | ⟨-, -, he⟩
  · have hsign := hchars '?' (List.mem_of_mem_head? (by simp [hq]))
    exact absurd hsign (by decide)
  · exact absurd hkeyword hk
  · exact he

/-- A text is read as the class of its erasure exactly when the erasure is the name of a type and
nothing makes it an array. -/
theorem isOf_parse_iff {t : TypeText} :
    (parse t.text).IsOf (.guess t.erasure) ↔ IsTypeName t.erasure ∧ ¬ (parse t.text).IsArray := by
  constructor
  · intro h
    have hheads := innermost_parse t
    dsimp only at hheads
    have hinner := innermost_of_not_isArray h.not_isArray
    rw [hinner] at hheads
    rcases hheads with ⟨-, he | ⟨b, u, he⟩⟩ | ⟨-, -, he⟩ | ⟨-, hk, he⟩
    · rw [he] at h
      exact h.elim
    · rw [he] at h
      exact h.elim
    · rw [he] at h
      exact h.elim
    · have hchars : ∀ c ∈ t.erasure.toList, isNameChar c = true := by
        apply takeWhile_of_guess_eq
        rcases he with he | ⟨arguments, he⟩
        · rw [he] at h
          exact h
        · rw [he] at h
          exact h
      rw [List.takeWhile_eq_self_iff.mpr hchars, String.ofList_toList] at hk
      exact ⟨⟨hchars, hk⟩, h.not_isArray⟩
  · rintro ⟨hname, harray⟩
    have hclass := innermost_of_isTypeName hname
    rw [innermost_of_not_isArray harray] at hclass
    rcases hclass with he | ⟨arguments, he⟩
    · rw [he]
      rfl
    · rw [he]
      rfl

theorem getLast?_name_ne {before name : List Char} (hne : name ≠ [])
    (hn : ∀ c ∈ name, isNameChar c = true) : (before ++ name).getLast? ≠ some ']' := by
  rw [List.getLast?_append_of_ne_nil _ hne]
  intro h
  exact absurd (hn ']' (List.mem_of_getLast? h)) (by decide)

/-- Of the spelled types only arrays, and what is bounded by one, end in a bracket. -/
theorem Spells.isArray_iff {s : List Char} {t : TypeName} (h : Spells s t) (hb : ¬ t.IsBounded) :
    t.IsArray ↔ s.getLast? = some ']' := by
  cases h with
  | primitive hbefore hk =>
    obtain ⟨hne, hn⟩ := keyword_chars hk
    exact iff_of_false nofun (getLast?_name_ne hne hn)
  | «class» hbefore hn => exact iff_of_false nofun (getLast?_name_ne hn.ne_nil hn.chars)
  | parameterized hbefore hn ho hfirst hmore hc => exact iff_of_false nofun (by
    simp only [← List.append_assoc, ← List.cons_append, List.getLast?_concat]
    decide)
  | array h ht ho hc => exact iff_of_true ⟨_, rfl⟩ (by
    simp only [← List.append_assoc, ← List.cons_append, List.getLast?_concat])
  | wildcard hbefore => exact iff_of_false nofun (by simp)
  | bounded hbefore hw hc h => exact absurd ⟨_, _, rfl⟩ hb

end Source.TypeName

/-- The instance that is created for an accepted method is one of the inspected class exactly when
the class has the name of a type and the implementation is not read as an array. If the text of the
implementation is spelled as a type, that is when it does not end in a bracket. -/
theorem Env.constructs_inspected_iff {env : Env} {c : Container} {m : Callable} {v : ProvidedValue}
    {t : TypeText} {parameters : List Variable}
    (h : (env.classify c m).result = .ok (some (.constructed v t parameters))) :
    ∃ d k, (env.symbols.require t).result = .ok d ∧ d.SoleConstructor k ∧
      parameters = k.parameters ∧
      ((parse t.text).IsOf (.guess d.key) ↔ IsTypeName d.key ∧ ¬ (parse t.text).IsArray) ∧
      ∀ s after type, t.text.toList = s ++ after → Text.Blank after → Spells s type →
        IsTypeName d.key →
          parse t.text = type ∧ (type.IsOf (.guess d.key) ↔ s.getLast? ≠ some ']') := by
  obtain ⟨-, hprovision⟩ := Env.classify_eq_some_iff.mp h
  obtain ⟨⟨u, ps⟩, hconstructed, he⟩ := Trial.bind_eq_ok.mp hprovision
  cases he
  obtain ⟨-, -, d, k, hd, -, -, hk, hparameters⟩ := Env.constructed_eq_ok_iff.mp hconstructed
  have hkey : d.key = t.erasure :=
    (Classpath.key_of_find? (Symbols.find?_of_require hd)).trans t.isErased_erasure
  refine ⟨d, k, hd, hk, hparameters, hkey ▸ TypeName.isOf_parse_iff, ?_⟩
  rintro s after type htext hafter hspells hname
  have hparse := hspells.parse_eq hafter htext
  -- a wildcard is erased to its question mark, which no type name begins with
  have hunbounded : ¬ type.IsBounded := by
    rintro ⟨b, u, rfl⟩
    rcases TypeName.innermost_of_isTypeName (hkey ▸ hname) with he | ⟨arguments, he⟩ <;>
      rw [hparse] at he <;> cases he
  refine ⟨hparse, ?_⟩
  rw [ne_eq, ← hspells.isArray_iff hunbounded, ← hparse, hkey, TypeName.isOf_parse_iff]
  exact and_iff_right (hkey ▸ hname)

def instanceOf (returns : String) : Callable :=
  (Callable.method "box" returns).annotated (.of Markers.default.newInstance)

def boxComponent (returns : String) : TypeDecl :=
  (bareContainer "a.FooComponent").withMember (instanceOf returns)

def boxes (returns : String) : Env where
  symbols := .ofClasspath (.ofList [boxComponent returns,
    (TypeDecl.ofKind .class "a.Box<T>").withMember .constructor])
  markers := .default

theorem genericBox_constructed :
    (∃ v t, ((boxes "a.Box < a.T> ").classify (.of .default (boxComponent "a.Box < a.T> "))
      (instanceOf "a.Box < a.T> ")).result = .ok (some (.constructed v t []))) ∧
    IsTypeName "a.Box" ∧ (parse "a.Box < a.T> ").IsOf ⟨"a", "Box", []⟩ := by
  have hclassify : ((boxes "a.Box < a.T> ").classify (.of .default (boxComponent "a.Box < a.T> "))
      (instanceOf "a.Box < a.T> ")).result = .ok (some (.constructed _ _ [])) := rfl
  have hname : IsTypeName "a.Box" := ⟨List.all_eq_true.mp (by decide), by decide⟩
  have hblank : Text.Blank [' '] := List.all_eq_true.mp (by decide)
  have hbox : TypeName.IsName "a.Box".toList :=
    ⟨by decide, List.all_eq_true.mp (by decide), by decide⟩
  have hargument : TypeName.IsName "a.T".toList :=
    ⟨by decide, List.all_eq_true.mp (by decide), by decide⟩
  have hnone : Text.Blank [] := nofun
  have hspells := Spells.parameterized hnone hbox hblank (.class hblank hargument) .nil hnone
  obtain ⟨d, k, hd, -, -, -, hspelled⟩ := Env.constructs_inspected_iff hclassify
  cases hd
  obtain ⟨hparse, hiff⟩ := hspelled _ [' '] _ rfl hblank hspells hname
  refine ⟨⟨_, _, hclassify⟩, hname, ?_⟩
  have hbracket := hiff.mpr (by decide)
  rw [← hparse] at hbracket
  exact hbracket

/-- An array of a generic class is erased to the class and accepted, so that the provider creates an
instance of the array type. -/
theorem genericArray_constructed : ∃ v t e p,
    ((boxes "a.Box<a.T>[]").classify (.of .default (boxComponent "a.Box<a.T>[]"))
      (instanceOf "a.Box<a.T>[]")).result = .ok (some (.constructed v t [])) ∧
    parse t.text = .array e ∧
    ((boxes "a.Box<a.T>[]").plan (.of .default (boxComponent "a.Box<a.T>[]"))).result = .ok p ∧
    p.provisions = [.constructed v t []] := ⟨_, _, _, _, rfl, rfl, rfl, rfl⟩

end Provisioning
