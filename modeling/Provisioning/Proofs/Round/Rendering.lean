import Provisioning.Proofs.Trial
import Provisioning.Round.Rendering

/-! # What rendering records and how it fails

Whatever is looked up, classified, planned or rendered, only events of rendering
are recorded and only failures of rendering occur: nothing is reported as failed
on the way, and no output is blamed before anything is written.
-/

namespace Provisioning

def Event.OfRendering : Event → Prop
  | .discovered _ _ => True
  | .classified _ _ _ => True
  | .planned _ _ _ => True
  | .warned _ _ => True
  | _ => False

/-- The failures of roots, rules and types, as opposed to those of output. -/
def Failure.OfRendering (f : Failure) : Prop :=
  match f.cause with
  | .output _ => False
  | .internal _ => False
  | _ => True

theorem Failure.OfRendering.within {f : Failure} (h : f.OfRendering) (frame : Frame) :
    (f.within frame).OfRendering := h

abbrev Trial.Renders {α : Type} (x : Trial α) : Prop :=
  x.Keeps Event.OfRendering Failure.OfRendering

theorem Trial.Renders.within {α : Type} {x : Trial α} (h : x.Renders) (frame : Frame) :
    (x.within frame).Renders := Keeps.within h frame fun _ hf => hf.within frame

open Trial

namespace Symbols

variable (s : Symbols)

theorem renders_lookup (name : String) : (s.lookup name).Renders := by
  unfold lookup
  split
  · exact keeps_crash _
  · exact keeps_pure _

theorem renders_require (t : TypeText) : (s.require t).Renders := by
  refine (s.renders_lookup t.erasure).bind ?_
  intro found _
  cases found with
  | some d => exact keeps_pure d
  | none => exact keeps_fail trivial

theorem renders_methods (d : TypeDecl) : (s.methods d).Renders := by
  unfold methods
  split
  · exact keeps_crash _
  · exact keeps_pure _

end Symbols

namespace Env

variable (env : Env)

theorem renders_warnNullable (m : Callable) (element : String) :
    (env.warnNullable m element).Renders := by
  unfold warnNullable
  split
  · exact keeps_record trivial
  · exact keeps_pure ()

theorem renders_injected (m : Callable) (element : String) : (env.injected m element).Renders := by
  unfold injected
  dsimp only
  split
  · exact keeps_fail trivial
  · split
    · exact keeps_pure _
    · exact keeps_fail trivial

theorem renders_constructed (m : Callable) (element : String) :
    (env.constructed m element).Renders := by
  unfold constructed
  dsimp only
  split
  · exact keeps_fail trivial
  · split
    · exact keeps_fail trivial
    · refine (env.symbols.renders_require _).bind fun decl _ => ?_
      split
      · exact keeps_fail trivial
      · split
        · exact keeps_pure _
        · exact keeps_fail trivial
        · exact keeps_fail trivial

theorem renders_provision (strategy : Strategy) (provided : ProvidedValue) (m : Callable)
    (element : String) : (env.provision strategy provided m element).Renders := by
  cases strategy with
  | runtime => exact keeps_pure _
  | injection => exact (env.renders_injected m element).bind fun _ _ => keeps_pure _
  | newInstance => exact (env.renders_constructed m element).bind fun _ _ => keeps_pure _

theorem renders_classify (c : Container) (m : Callable) : (env.classify c m).Renders := by
  unfold classify
  dsimp only
  split
  · exact keeps_pure none
  · split
    · exact keeps_fail trivial
    · split
      · exact keeps_fail trivial
      · refine (env.renders_warnNullable m _).bind fun _ _ => ?_
        refine Keeps.bind (keeps_record trivial) fun _ _ => ?_
        exact (env.renders_provision _ _ m _).bind fun _ _ => keeps_pure _
  · exact keeps_fail trivial

theorem renders_plan (c : Container) : (env.plan c).Renders := by
  refine (env.symbols.renders_methods c.decl).bind fun methods _ => ?_
  refine (keeps_forAll fun m _ => (env.renders_classify c m).within _).bind fun found _ => ?_
  exact Keeps.bind (keeps_record trivial) fun _ _ => keeps_pure _

theorem renders_root (name : String) : (env.root name).Renders := by
  refine (env.symbols.renders_lookup name).bind ?_
  intro found _
  cases found with
  | some d => exact keeps_pure d
  | none =>
    have h : (Trial.fail (.of (.unknownType name)) : Trial TypeDecl).Renders := keeps_fail trivial
    exact h.within .discover

theorem renders_discover (roots : List String) : (env.discover roots).Renders := by
  refine (keeps_forAll fun name _ => env.renders_root name).bind fun decls _ => ?_
  exact Keeps.bind (keeps_record trivial) fun _ _ => keeps_pure _

theorem renders_renderOne (c : Container) : (env.renderOne c).Renders :=
  ((env.renders_plan c).within _).bind fun _ _ => keeps_pure _

theorem renders_render (roots : List String) : (env.render roots).Renders :=
  (env.renders_discover roots).bind fun _ _ => keeps_forAll fun c _ => env.renders_renderOne c

/-- A round is rendered exactly when its containers are found and the module of each is rendered. -/
theorem render_eq_ok {roots : List String} {files : List OutputFile} :
    (env.render roots).result = .ok files ↔
      ∃ containers, (env.discover roots).result = .ok containers ∧
        List.Forall₂ (fun c f => (env.renderOne c).result = .ok f) containers files := by
  simp only [render, bind_eq_ok, forAll_eq_ok]

end Env

end Provisioning
