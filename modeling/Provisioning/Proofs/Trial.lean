import Mathlib.Data.List.Forall2
import Provisioning.Trial

/-! # What trials answer and record

A sequence of trials answers only when every step does, and then its events are
those of the steps in order. The second half follows a property of events and
one of failures through a computation, whether it answers or stops.
-/

namespace Provisioning.Trial

variable {α β : Type}

@[simp] theorem pure_eq (a : α) : (Pure.pure a : Trial α) = Trial.pure a := rfl
@[simp] theorem result_pure (a : α) : (Trial.pure a).result = .ok a := rfl
@[simp] theorem events_pure (a : α) : (Trial.pure a).events = [] := rfl
@[simp] theorem result_record (e : Event) : (record e).result = .ok () := rfl
@[simp] theorem events_record (e : Event) : (record e).events = [e] := rfl

theorem bind_of_ok {x : Trial α} {a : α} (f : α → Trial β) (h : x.result = .ok a) :
    x >>= f = ⟨x.events ++ (f a).events, (f a).result⟩ := by
  change Trial.bind x f = _
  unfold Trial.bind
  rw [h]

theorem bind_of_error {x : Trial α} {stop : Stop} (f : α → Trial β) (h : x.result = .error stop) :
    x >>= f = ⟨x.events, .error stop⟩ := by
  change Trial.bind x f = _
  unfold Trial.bind
  rw [h]

theorem bind_eq_ok {x : Trial α} {f : α → Trial β} {b : β} :
    (x >>= f).result = .ok b ↔ ∃ a, x.result = .ok a ∧ (f a).result = .ok b := by
  cases h : x.result with
  | ok a => simp [bind_of_ok f h]
  | error stop => simp [bind_of_error f h]

theorem bind_eq_error {x : Trial α} {f : α → Trial β} {stop : Stop} :
    (x >>= f).result = .error stop ↔
      x.result = .error stop ∨ ∃ a, x.result = .ok a ∧ (f a).result = .error stop := by
  cases h : x.result with
  | ok a => simp [bind_of_ok f h]
  | error other => simp [bind_of_error f h]

@[simp] theorem events_within (x : Trial α) (frame : Frame) :
    (x.within frame).events = x.events := by
  unfold Trial.within
  split <;> rfl

theorem within_of_ok {x : Trial α} {a : α} (frame : Frame) (h : x.result = .ok a) :
    x.within frame = x := by
  unfold Trial.within
  rw [h]

theorem within_of_failed {x : Trial α} {f : Failure} (frame : Frame)
    (h : x.result = .error (.failed f)) :
    x.within frame = ⟨x.events, .error (.failed (f.within frame))⟩ := by
  unfold Trial.within
  rw [h]

theorem within_of_crashed {x : Trial α} {message : Option String} (frame : Frame)
    (h : x.result = .error (.crashed message)) : x.within frame = x := by
  unfold Trial.within
  rw [h]

@[simp] theorem within_eq_ok {x : Trial α} {frame : Frame} {a : α} :
    (x.within frame).result = .ok a ↔ x.result = .ok a := by
  cases h : x.result with
  | ok b => rw [within_of_ok frame h, h]
  | error stop => cases stop <;> simp [Trial.within, h]

/-- A frame is only added to a failure; a crash passes as it is. -/
theorem within_eq_failed {x : Trial α} {frame : Frame} {f : Failure} :
    (x.within frame).result = .error (.failed f) ↔
      ∃ g, x.result = .error (.failed g) ∧ f = g.within frame := by
  cases h : x.result with
  | ok a => simp [within_of_ok frame h, h]
  | error stop => cases stop <;> simp [Trial.within, h, eq_comm]

theorem forAll_cons (f : α → Trial β) (a : α) (rest : List α) :
    forAll f (a :: rest) = f a >>= fun b => forAll f rest >>= fun bs => Trial.pure (b :: bs) := rfl

theorem forAll_eq_ok {f : α → Trial β} {l : List α} {bs : List β} :
    (forAll f l).result = .ok bs ↔ List.Forall₂ (fun a b => (f a).result = .ok b) l bs := by
  induction l generalizing bs with
  | nil => cases bs <;> simp [forAll]
  | cons a rest ih =>
    rw [forAll_cons, bind_eq_ok]
    constructor
    · rintro ⟨b, hb, h⟩
      obtain ⟨more, hm, hr⟩ := bind_eq_ok.mp h
      cases hr
      exact List.Forall₂.cons hb (ih.mp hm)
    · intro h
      cases h with
      | cons hb hm => exact ⟨_, hb, bind_eq_ok.mpr ⟨_, ih.mpr hm, rfl⟩⟩

theorem answers_of_forAll {f : α → Trial β} {l : List α} {bs : List β}
    (h : (forAll f l).result = .ok bs) : ∀ a ∈ l, ∃ b, (f a).result = .ok b := by
  have hall := forAll_eq_ok.mp h
  clear h
  induction hall with
  | nil => exact fun _ h => absurd h List.not_mem_nil
  | cons ha _ ih => exact List.forall_mem_cons.mpr ⟨⟨_, ha⟩, ih⟩

theorem events_forAll {f : α → Trial β} {l : List α} {bs : List β}
    (h : (forAll f l).result = .ok bs) : (forAll f l).events = l.flatMap fun a => (f a).events := by
  induction l generalizing bs with
  | nil => rfl
  | cons a rest ih =>
    obtain ⟨b, hb, hm⟩ := bind_eq_ok.mp (forAll_cons f a rest ▸ h)
    obtain ⟨more, hm, -⟩ := bind_eq_ok.mp hm
    rw [forAll_cons, bind_of_ok _ hb, bind_of_ok _ hm, ih hm]
    simp

theorem forAll_of_stop {f : α → Trial β} {before after : List α} {a : α} {stop : Stop}
    (hb : ∀ x ∈ before, ∃ y, (f x).result = .ok y) (ha : (f a).result = .error stop) :
    forAll f (before ++ a :: after) =
      ⟨(before ++ [a]).flatMap fun x => (f x).events, .error stop⟩ := by
  induction before with
  | nil => rw [List.nil_append, forAll_cons, bind_of_error _ ha, List.nil_append,
      List.flatMap_singleton]
  | cons x rest ih =>
    obtain ⟨⟨y, hy⟩, hrest⟩ := List.forall_mem_cons.mp hb
    have hstop : (forAll f (rest ++ a :: after)).result = .error stop := by rw [ih hrest]
    rw [List.cons_append, forAll_cons, bind_of_ok _ hy, bind_of_error _ hstop, ih hrest,
      List.cons_append, List.flatMap_cons]

/-- Either all items answer, or there is a first one that stops. -/
theorem forAll_ends (f : α → Trial β) (l : List α) : (∃ bs, (forAll f l).result = .ok bs) ∨
    ∃ before a after stop, l = before ++ a :: after ∧ (∀ x ∈ before, ∃ y, (f x).result = .ok y) ∧
      (f a).result = .error stop := by
  induction l with
  | nil => exact .inl ⟨[], rfl⟩
  | cons a rest ih =>
    cases ha : (f a).result with
    | error stop => exact .inr ⟨[], a, rest, stop, rfl, fun _ h => absurd h List.not_mem_nil, ha⟩
    | ok b =>
      rcases ih with ⟨bs, hbs⟩ | ⟨before, c, after, stop, rfl, hb, hc⟩
      · exact .inl ⟨b :: bs, forAll_eq_ok.mpr (.cons ha (forAll_eq_ok.mp hbs))⟩
      · exact .inr ⟨a :: before, c, after, stop, rfl, List.forall_mem_cons.mpr ⟨⟨b, ha⟩, hb⟩, hc⟩

/-- Two sequences are the same if their steps agree wherever the first one answers. -/
theorem bind_congr_of_ok {x y : Trial α} {f g : α → Trial β} {b : β} (h : (x >>= f).result = .ok b)
    (hx : ∀ a, x.result = .ok a → (f a).result = .ok b → y = x)
    (hf : ∀ a, (f a).result = .ok b → g a = f a) : y >>= g = x >>= f := by
  obtain ⟨a, ha, hb⟩ := bind_eq_ok.mp h
  rw [hx a ha hb, bind_of_ok f ha, bind_of_ok g ha, hf a hb]

theorem forAll_congr_of_ok {f g : α → Trial β} {l : List α} {bs : List β}
    (h : (forAll f l).result = .ok bs)
    (hf : ∀ a ∈ l, ∀ b, (f a).result = .ok b → g a = f a) : forAll g l = forAll f l := by
  induction l generalizing bs with
  | nil => rfl
  | cons a rest ih =>
    obtain ⟨b, hb, hrest⟩ := bind_eq_ok.mp (forAll_cons f a rest ▸ h)
    obtain ⟨more, hmore, -⟩ := bind_eq_ok.mp hrest
    rw [forAll_cons, forAll_cons, hf a List.mem_cons_self b hb,
      ih hmore fun c hc => hf c (List.mem_cons_of_mem a hc)]

section Keeping

variable {E : Event → Prop} {F : Failure → Prop}

/-- Every recorded event satisfies `E`, and a failure that stops the trial satisfies `F`. -/
structure Keeps (E : Event → Prop) (F : Failure → Prop) (x : Trial α) : Prop where
  event : ∀ e ∈ x.events, E e
  failure : ∀ f, x.result = .error (.failed f) → F f

theorem keeps_pure (a : α) : Keeps E F (Trial.pure a) :=
  ⟨fun _ h => absurd h List.not_mem_nil, fun _ h => by cases h⟩

theorem keeps_crash (message : Option String) : Keeps E F (Trial.crash message : Trial α) :=
  ⟨fun _ h => absurd h List.not_mem_nil, fun _ h => by cases h⟩

theorem keeps_fail {f : Failure} (hf : F f) : Keeps E F (Trial.fail f : Trial α) := by
  refine ⟨fun _ h => absurd h List.not_mem_nil, ?_⟩
  intro g h
  cases h
  exact hf

theorem keeps_record {e : Event} (he : E e) : Keeps E F (record e) := by
  refine ⟨?_, fun _ h => by cases h⟩
  intro g hg
  rw [events_record, List.mem_singleton] at hg
  exact hg ▸ he

theorem Keeps.bind {x : Trial α} {f : α → Trial β} (hx : Keeps E F x)
    (hf : ∀ a, x.result = .ok a → Keeps E F (f a)) : Keeps E F (x >>= f) := by
  cases h : x.result with
  | ok a =>
    rw [bind_of_ok f h]
    refine ⟨?_, (hf a h).failure⟩
    intro e he
    rcases List.mem_append.mp he with he | he
    · exact hx.event e he
    · exact (hf a h).event e he
  | error stop =>
    rw [bind_of_error f h]
    refine ⟨hx.event, ?_⟩
    intro g hg
    cases hg
    exact hx.failure g h

theorem Keeps.within {x : Trial α} (hx : Keeps E F x) (frame : Frame)
    (hF : ∀ f, F f → F (f.within frame)) : Keeps E F (x.within frame) := by
  refine ⟨by simpa using hx.event, ?_⟩
  intro f h
  obtain ⟨g, hg, rfl⟩ := within_eq_failed.mp h
  exact hF g (hx.failure g hg)

theorem keeps_forAll {f : α → Trial β} {l : List α} (hf : ∀ a ∈ l, Keeps E F (f a)) :
    Keeps E F (forAll f l) := by
  induction l with
  | nil => exact keeps_pure []
  | cons a rest ih =>
    rw [forAll_cons]
    refine (hf a List.mem_cons_self).bind fun b _ => ?_
    refine (ih fun c hc => hf c (List.mem_cons_of_mem a hc)).bind fun bs _ => ?_
    exact keeps_pure (b :: bs)

end Keeping

end Provisioning.Trial

namespace Provisioning

theorem diagnostics_append (a b : List Event) :
    diagnostics (a ++ b) = diagnostics a ++ diagnostics b := List.filterMap_append

theorem diagnostics_flatMap {α : Type} (l : List α) (f : α → List Event) :
    diagnostics (l.flatMap f) = l.flatMap fun a => diagnostics (f a) := by
  induction l with
  | nil => rfl
  | cons a rest ih => rw [List.flatMap_cons, diagnostics_append, ih, List.flatMap_cons]

end Provisioning
