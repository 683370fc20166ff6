import Provisioning.Proofs.Module.Planning
import Provisioning.Proofs.Round.Discovery

/-! # Accepted methods

The rules for a method of a container, told from its annotations, the subtypes and
the constructors alone. A method is classified into a provision exactly when it
keeps the rules of the one strategy whose marker it carries, and the provision
holds the implementation and the constructor that the rules single out.
-/

namespace Provisioning

namespace Callable

def Carries (markers : Markers) (m : Callable) (s : Strategy) : Prop :=
  ∃ a ∈ m.annotations, a.type.text = markers.marker s

/-- The first annotation of this name has this for the value of the property. -/
def Sets (m : Callable) (marker property : String) (v : Option Constant) : Prop :=
  ∃ before a after, m.annotations = before ++ a :: after ∧
    (∀ b ∈ before, b.type.text ≠ marker) ∧ a.type.text = marker ∧ Dict.get? a.values property = v

def Injects (markers : Markers) (m : Callable) (t : TypeText) : Prop :=
  m.Sets markers.injection markers.implementationProperty (some (.type t))

inductive Constructs (markers : Markers) (m : Callable) : TypeText → Prop
  | named (t : TypeText)
      (h : m.Sets markers.newInstance markers.implementationProperty (some (.type t)))
      (ht : Text.trim t.text ≠ Text.trim markers.unsetSentinel) : Constructs markers m t
  | sentinel (t : TypeText)
      (h : m.Sets markers.newInstance markers.implementationProperty (some (.type t)))
      (ht : Text.trim t.text = Text.trim markers.unsetSentinel) : Constructs markers m m.returns
  | absent (h : m.Sets markers.newInstance markers.implementationProperty none) :
      Constructs markers m m.returns

def IsOpen (k : Callable) : Prop := k.modifiers.isPrivate = false ∧ k.modifiers.isProtected = false

end Callable

def TypeDecl.SoleConstructor (d : TypeDecl) (k : Callable) : Prop :=
  k.IsOpen ∧ ∃ before after, d.members = before ++ .constructor k :: after ∧
    ∀ other, .constructor other ∈ before ++ after → ¬ other.IsOpen

namespace Strategy

def Allows (cp : Classpath) (markers : Markers) (m : Callable) : Strategy → Prop
  | .runtime => True
  | .injection => ∃ t, m.Injects markers t ∧ cp.isSubtype t m.returns = true
  | .newInstance => ∃ t d k, m.Constructs markers t ∧ cp.isSubtype t m.returns = true ∧
      cp.find? t.erasure = some d ∧ d.modifiers.isAbstract = false ∧ d.kind ≠ .interface ∧
      d.SoleConstructor k

/-- All rules for a method that carries the marker of the strategy. -/
structure Legal (cp : Classpath) (markers : Markers) (c : Container) (m : Callable)
    (s : Strategy) : Prop where
  carried : m.Carries markers s
  alone : ∀ other, m.Carries markers other → other = s
  returns : m.returns.text ≠ "void"
  parameters : c.inComponent = true → m.parameters = []
  allowed : s.Allows cp markers m

end Strategy

structure ProvidedValue.Describes (markers : Markers) (m : Callable) (v : ProvidedValue) : Prop where
  name : v.name = m.name
  returns : v.returns = m.returns
  nullable : v.nullable = true ↔
    m.returns.isPrimitive = false ∧ ∃ a ∈ m.annotations, markers.isNullable a.type.text = true
  annotations : v.annotations = m.annotations.filter (·.type.text ∉ markers.strategies)
  qualifiers : ∀ p, m.parameters = [p] →
    v.qualifiers = p.annotations.filter (·.type.text ∉ markers.strategies)
  unqualified : m.parameters.length ≠ 1 → v.qualifiers = []

def Provision.Holds (cp : Classpath) (markers : Markers) (m : Callable) : Provision → Prop
  | .runtime _ => True
  | .injected _ t => m.Injects markers t
  | .constructed _ t parameters => m.Constructs markers t ∧
      ∃ d k, cp.find? t.erasure = some d ∧ d.SoleConstructor k ∧ parameters = k.parameters

theorem ProvidedValue.describes_of (markers : Markers) (m : Callable) :
    (ProvidedValue.of markers m).Describes markers m := by
  have hfilter : ∀ l, markers.withoutStrategies l = l.filter (·.type.text ∉ markers.strategies) := by
    intro l
    simp [Markers.withoutStrategies, Markers.isStrategy]
  refine ⟨rfl, rfl, ?_, hfilter _, ?_, ?_⟩
  · simp [ProvidedValue.of, Markers.allowsNull, and_comm]
  · intro p hp
    simp only [ProvidedValue.of, hp, hfilter]
  · intro hp
    unfold ProvidedValue.of
    dsimp only
    split
    · rename_i p h
      exact absurd (congrArg List.length h) hp
    · rfl

theorem Markers.mem_strategiesOf {markers : Markers} {m : Callable} {s : Strategy} :
    s ∈ markers.strategiesOf m ↔ m.Carries markers s := by
  have hall : s ∈ [Strategy.runtime, .injection, .newInstance] := by cases s <;> decide
  simp [strategiesOf, Callable.isAnnotated, AnnotationUse.isNamed, Callable.Carries, hall]

theorem Markers.strategiesOf_eq_nil_iff {markers : Markers} {m : Callable} :
    markers.strategiesOf m = [] ↔ ∀ s, ¬ m.Carries markers s := by
  simp only [List.eq_nil_iff_forall_not_mem, mem_strategiesOf]

theorem Markers.strategiesOf_eq_singleton_iff {markers : Markers} {m : Callable} {s : Strategy} :
    markers.strategiesOf m = [s] ↔
      m.Carries markers s ∧ ∀ other, m.Carries markers other → other = s := by
  have hn : (markers.strategiesOf m).Nodup := List.Nodup.filter _ (by decide)
  simp only [← mem_strategiesOf]
  constructor
  · intro h
    simp [h]
  · rintro ⟨hs, hother⟩
    -- no strategy is listed twice, so the members decide
    apply List.perm_singleton.mp
    apply (List.perm_ext_iff_of_nodup hn (List.nodup_singleton s)).mpr
    intro other
    rw [List.mem_singleton]
    constructor
    · exact hother other
    · rintro rfl
      exact hs

namespace Callable

variable {m : Callable} {marker property : String}

theorem sets_iff {v : Option Constant} : m.Sets marker property v ↔
    ∃ a, m.findAnnotated? marker = some a ∧ Dict.get? a.values property = v := by
  simp only [findAnnotated?, List.find?_eq_some_iff_append, AnnotationUse.isNamed,
    decide_eq_true_eq, Bool.not_eq_true', decide_eq_false_iff_not]
  constructor
  · rintro ⟨before, a, after, h, hbefore, ha, hv⟩
    exact ⟨a, ⟨ha, before, after, h, hbefore⟩, hv⟩
  · rintro ⟨a, ⟨ha, before, after, h, hbefore⟩, hv⟩
    exact ⟨before, a, after, h, hbefore, ha, hv⟩

theorem typeProperty_eq_ok_iff {t : TypeText} :
    m.typeProperty marker property = .ok t ↔ m.Sets marker property (some (.type t)) := by
  rw [sets_iff]
  unfold typeProperty
  cases m.findAnnotated? marker with
  | none => simp
  | some a =>
    simp only [Option.some.injEq, exists_eq_left']
    unfold AnnotationUse.typeProperty
    split
    · rename_i u h
      simp [h]
    · rename_i v hv h
      have hne : v ≠ .type t := hv t
      simp [h, hne]
    · rename_i h
      simp [h]

theorem typeProperty_unset_iff :
    (∃ p, m.typeProperty marker property = .error p ∧ p.fault = .unset) ↔
      m.Sets marker property none := by
  rw [sets_iff]
  unfold typeProperty
  cases m.findAnnotated? marker with
  | none => simp
  | some a =>
    simp only [Option.some.injEq, exists_eq_left']
    unfold AnnotationUse.typeProperty
    split <;> rename_i h <;> simp [h]

end Callable

def Member.openConstructor? (x : Member) : Option Callable :=
  x.constructor?.filter fun k => !k.modifiers.isPrivate && !k.modifiers.isProtected

theorem Member.openConstructor?_eq_some_iff {x : Member} {k : Callable} :
    x.openConstructor? = some k ↔ x = .constructor k ∧ k.IsOpen := by
  cases x with
  | method m => simp [openConstructor?, constructor?]
  | field v => simp [openConstructor?, constructor?]
  | constructor m =>
    simp only [openConstructor?, constructor?, Option.filter_eq_some_iff, Option.some.injEq,
      Bool.and_eq_true, Bool.not_eq_true', constructor.injEq, Callable.IsOpen]

theorem Member.openConstructor?_eq_none_iff {x : Member} :
    x.openConstructor? = none ↔ ∀ k, x = .constructor k → ¬ k.IsOpen := by
  simp only [Option.eq_none_iff_forall_ne_some, ne_eq, openConstructor?_eq_some_iff, not_and]

theorem TypeDecl.openConstructors_eq_singleton_iff {d : TypeDecl} {k : Callable} :
    d.openConstructors = [k] ↔ d.SoleConstructor k := by
  have hlist : d.openConstructors = d.members.filterMap Member.openConstructor? :=
    List.filter_filterMap
  rw [hlist, List.filterMap_eq_cons_iff]
  simp only [List.filterMap_eq_nil_iff, Member.openConstructor?_eq_none_iff,
    Member.openConstructor?_eq_some_iff]
  constructor
  · rintro ⟨before, x, after, h, hbefore, ⟨rfl, hk⟩, hafter⟩
    refine ⟨hk, before, after, h, ?_⟩
    intro other hother
    rcases List.mem_append.mp hother with hmem | hmem
    · exact hbefore _ hmem other rfl
    · exact hafter _ hmem other rfl
  · rintro ⟨hk, before, after, h, hother⟩
    refine ⟨before, _, after, h, ?_, ⟨rfl, hk⟩, ?_⟩
    · rintro x hx other rfl
      exact hother other (List.mem_append_left _ hx)
    · rintro x hx other rfl
      exact hother other (List.mem_append_right _ hx)

theorem Symbols.require_eq_ok_iff {cp : Classpath} {t : TypeText} {d : TypeDecl} :
    ((ofClasspath cp).require t).result = .ok d ↔ cp.find? t.erasure = some d := by
  unfold require
  have hlookup : ((ofClasspath cp).lookup t.erasure).result = .ok (cp.find? t.erasure) := rfl
  rw [Trial.bind_of_ok _ hlookup]
  cases cp.find? t.erasure with
  | none => simp [Trial.fail]
  | some found => simp

theorem Symbols.find?_of_require {s : Symbols} {t : TypeText} {d : TypeDecl}
    (h : (s.require t).result = .ok d) : s.classpath.find? t.erasure = some d := by
  obtain ⟨found, hfound, h⟩ := Trial.bind_eq_ok.mp h
  have hlookup : s.classpath.find? t.erasure = found := by
    unfold lookup at hfound
    split at hfound
    · cases hfound
    · cases hfound
      rfl
  rw [hlookup]
  cases found with
  | none => cases h
  | some e =>
    cases h
    rfl

namespace Env

section Strategies

variable {env : Env} {m : Callable} {element : String} {t : TypeText}

theorem implementation_eq_ok_iff :
    env.implementation m = .ok t ↔ m.Constructs env.markers t := by
  unfold implementation
  dsimp only
  constructor
  · intro h
    split at h
    · rename_i u hu
      have hset := Callable.typeProperty_eq_ok_iff.mp hu
      split at h
      · rename_i hsame
        cases h
        exact .sentinel u hset (of_decide_eq_true hsame)
      · rename_i hsame
        cases h
        exact .named _ hset fun he => hsame (decide_eq_true he)
    · rename_i p hp
      split at h
      · rename_i hunset
        cases h
        exact .absent (Callable.typeProperty_unset_iff.mp ⟨p, hp, hunset⟩)
      · cases h
  · intro h
    cases h with
    | named t h ht => simp [Callable.typeProperty_eq_ok_iff.mpr h, TypeText.same, ht]
    | sentinel u h ht => simp [Callable.typeProperty_eq_ok_iff.mpr h, TypeText.same, ht]
    | absent h =>
      obtain ⟨p, hp, hunset⟩ := Callable.typeProperty_unset_iff.mpr h
      simp [hp, hunset]

theorem injected_eq_ok_iff : (env.injected m element).result = .ok t ↔
    m.Injects env.markers t ∧ env.symbols.classpath.isSubtype t m.returns = true := by
  rw [Callable.Injects, ← Callable.typeProperty_eq_ok_iff]
  unfold injected
  dsimp only
  constructor
  · intro h
    split at h
    · cases h
    · rename_i u hu
      split at h
      · rename_i hsub
        cases h
        exact ⟨hu, hsub⟩
      · cases h
  · rintro ⟨ht, hsub⟩
    simp [ht, hsub]

theorem constructed_eq_ok_iff {parameters : List Variable} :
    (env.constructed m element).result = .ok (t, parameters) ↔
      m.Constructs env.markers t ∧ env.symbols.classpath.isSubtype t m.returns = true ∧
      ∃ d k, (env.symbols.require t).result = .ok d ∧ d.modifiers.isAbstract = false ∧
        d.kind ≠ .interface ∧ d.SoleConstructor k ∧ parameters = k.parameters := by
  rw [← implementation_eq_ok_iff]
  unfold constructed
  dsimp only
  constructor
  · intro h
    split at h
    · cases h
    · rename_i u hu
      split at h
      · cases h
      · rename_i hsub
        obtain ⟨d, hd, h⟩ := Trial.bind_eq_ok.mp h
        split at h
        · cases h
        · rename_i hkind
          split at h
          · rename_i k hk
            cases h
            rw [Bool.not_eq_true, Bool.or_eq_false_iff] at hkind
            exact ⟨hu, by simpa using hsub, d, k, hd, hkind.1, of_decide_eq_false hkind.2,
              TypeDecl.openConstructors_eq_singleton_iff.mp hk, rfl⟩
          · cases h
          · cases h
  · rintro ⟨ht, hsub, d, k, hd, habstract, hkind, hk, rfl⟩
    have hopen : (d.isAbstract || d.isInterface) = false := by
      simp [TypeDecl.isAbstract, TypeDecl.isInterface, habstract, hkind]
    simp only [ht, hsub, Bool.not_true, Bool.false_eq_true, if_false]
    refine Trial.bind_eq_ok.mpr ⟨d, hd, ?_⟩
    simp [hopen, TypeDecl.openConstructors_eq_singleton_iff.mpr hk]

end Strategies

variable {cp : Classpath} {markers : Markers} {m : Callable} {element : String}

theorem exists_provision_iff {s : Strategy} (v : ProvidedValue) (element : String) :
    (∃ p, ((ofClasspath cp markers).provision s v m element).result = .ok p) ↔
      s.Allows cp markers m := by
  cases s with
  | runtime => exact iff_of_true ⟨_, rfl⟩ trivial
  | injection =>
    constructor
    · rintro ⟨p, h⟩
      obtain ⟨t, ht, -⟩ := Trial.bind_eq_ok.mp h
      exact ⟨t, injected_eq_ok_iff.mp ht⟩
    · rintro ⟨t, ht⟩
      exact ⟨_, Trial.bind_eq_ok.mpr ⟨t, injected_eq_ok_iff.mpr ht, rfl⟩⟩
  | newInstance =>
    constructor
    · rintro ⟨p, h⟩
      obtain ⟨⟨t, parameters⟩, ht, -⟩ := Trial.bind_eq_ok.mp h
      obtain ⟨hc, hsub, d, k, hd, habstract, hkind, hk, -⟩ := constructed_eq_ok_iff.mp ht
      exact ⟨t, d, k, hc, hsub, Symbols.require_eq_ok_iff.mp hd, habstract, hkind, hk⟩
    · rintro ⟨t, d, k, hc, hsub, hd, habstract, hkind, hk⟩
      have hrequire := Symbols.require_eq_ok_iff.mpr hd
      exact ⟨_, Trial.bind_eq_ok.mpr ⟨_, constructed_eq_ok_iff.mpr
        ⟨hc, hsub, d, k, hrequire, habstract, hkind, hk, rfl⟩, rfl⟩⟩

theorem holds_of_provision {env : Env} {s : Strategy} {v : ProvidedValue} {p : Provision}
    (h : (env.provision s v m element).result = .ok p) :
    p.Holds env.symbols.classpath env.markers m := by
  cases s with
  | runtime =>
    cases h
    trivial
  | injection =>
    obtain ⟨t, ht, h⟩ := Trial.bind_eq_ok.mp h
    cases h
    exact (injected_eq_ok_iff.mp ht).1
  | newInstance =>
    obtain ⟨⟨t, parameters⟩, ht, h⟩ := Trial.bind_eq_ok.mp h
    cases h
    obtain ⟨hc, -, d, k, hd, -, -, hk, hparameters⟩ := constructed_eq_ok_iff.mp ht
    exact ⟨hc, d, k, Symbols.find?_of_require hd, hk, hparameters⟩

/-- There is no provision exactly when no strategy marker is carried, and there is one exactly when
the rules of one strategy are kept. It is the provision that the rules single out. -/
theorem classify_accepts_legal (cp : Classpath) (markers : Markers) (c : Container) (m : Callable) :
    let answer := ((ofClasspath cp markers).classify c m).result
    (answer = .ok none ↔ ∀ s, ¬ m.Carries markers s) ∧
      ((∃ p, answer = .ok (some p)) ↔ ∃ s, Strategy.Legal cp markers c m s) ∧
      ∀ p, answer = .ok (some p) → m.Carries markers p.strategy ∧
        p.value.Describes markers m ∧ p.Holds cp markers m := by
  dsimp only
  refine ⟨classify_eq_none_iff.trans Markers.strategiesOf_eq_nil_iff, ?_, ?_⟩
  · constructor
    · rintro ⟨p, h⟩
      obtain ⟨hpasses, hp⟩ := classify_eq_some_iff.mp h
      obtain ⟨hcarried, halone⟩ := Markers.strategiesOf_eq_singleton_iff.mp hpasses.only
      exact ⟨p.strategy, hcarried, halone, of_decide_eq_false hpasses.returns, hpasses.parameters,
        (exists_provision_iff _ _).mp ⟨p, hp⟩⟩
    · rintro ⟨s, hs⟩
      obtain ⟨p, hp⟩ :=
        (exists_provision_iff (ProvidedValue.of markers m) (c.element m)).mpr hs.allowed
      obtain ⟨-, rfl⟩ := provision_eq_ok hp
      have honly := Markers.strategiesOf_eq_singleton_iff.mpr ⟨hs.carried, hs.alone⟩
      have hpasses : (ofClasspath cp markers).Passes c m p.strategy :=
        ⟨honly, decide_eq_false hs.returns, hs.parameters⟩
      exact ⟨p, classify_eq_some_iff.mpr ⟨hpasses, hp⟩⟩
  · intro p h
    obtain ⟨hpasses, hp⟩ := classify_eq_some_iff.mp h
    have hvalue : p.value = ProvidedValue.of markers m := (provision_eq_ok hp).1
    refine ⟨(Markers.strategiesOf_eq_singleton_iff.mp hpasses.only).1, ?_, holds_of_provision hp⟩
    rw [hvalue]
    exact ProvidedValue.describes_of markers m

end Env

end Provisioning
