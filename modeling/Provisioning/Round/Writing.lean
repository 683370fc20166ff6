import Provisioning.Round.Rendering

/-!
# Writing

Nothing is written unless every module of a round is rendered and the filer accepts all names. The
files are written in order, up to the first one that is refused.
-/

namespace Provisioning

section Writing

variable {σ : Type} [Filer σ]

/-- The first name that was created before or that appears a second time. -/
def firstConflict (filer : σ) : List String → List OutputFile → Option String
  | _, [] => none
  | seen, f :: rest =>
    if Filer.isCreated filer f.qualifiedName || seen.contains f.qualifiedName then
      some f.qualifiedName
    else firstConflict filer (f.qualifiedName :: seen) rest

def writeFailure (name : String) (e : WriteError) : Failure :=
  ((Failure.of (.output e)).within (.writeSource name)).within .generate

/-- Writes the files in order, up to the first one that is refused. -/
def writeAll (filer : σ) : List OutputFile → σ × Trial Unit
  | [] => (filer, .pure ())
  | f :: rest =>
    match Filer.write filer f with
    | (filer, .ok ()) =>
      let (filer, more) := writeAll filer rest
      (filer, ⟨.generated f.qualifiedName :: more.events, more.result⟩)
    | (filer, .error e) => (filer, .fail (writeFailure f.qualifiedName e))

def Env.generate (env : Env) (filer : σ) (roots : List String) :
    σ × Trial (List OutputFile) :=
  let rendered := (env.render roots).within .generate
  match rendered.result with
  | .error stop => (filer, ⟨rendered.events, .error stop⟩)
  | .ok files =>
    match firstConflict filer [] files with
    | some name =>
      (filer, ⟨rendered.events, .error (.failed (writeFailure name (.alreadyCreated name)))⟩)
    | none =>
      let (filer, written) := writeAll filer files
      (filer, ⟨rendered.events ++ written.events, written.result.map fun _ => files⟩)

end Writing

end Provisioning
