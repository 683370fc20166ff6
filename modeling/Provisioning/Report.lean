import Provisioning.Universe

/-!
# Runs

All rounds of a universe, one after the other, and the empty last round.
-/

namespace Provisioning

structure Report where
  files : List OutputFile
  diagnostics : Log
  deriving Repr

namespace Report

def errorCount (r : Report) : Nat := (Log.errors r.diagnostics).length

def hasErrors (r : Report) : Bool := 0 < r.errorCount

end Report

section

variable {σ : Type} [Filer σ]

def runFrom (index : Nat) : List Round → Processor σ → Processor σ
  | [], p => p
  | round :: rest, p =>
    let started := { p with events := p.events ++ [Event.started index round.roots.length] }
    runFrom (index + 1) rest (started.process round).2

def Universe.run (u : Universe) (markers : Markers) (filer : σ) : Processor (Recorded σ) :=
  let env : Env := ⟨.ofClasspath u.classpath, markers⟩
  let p := Processor.start env (⟨filer, []⟩ : Recorded σ)
  ((runFrom 0 u.roundList p).process .last).2

def Processor.report (p : Processor (Recorded σ)) : Report := ⟨p.filer.accepted, p.log⟩

end

inductive Output
  | directory (root : String)
  | memory
  deriving DecidableEq, Repr

def Universe.runIn (u : Universe) (markers : Markers) (output : Output) (tree : FileTree) :
    Report × FileTree :=
  match output with
  | .directory root =>
    let p := u.run markers (DirectoryFiler.ofRoot root tree)
    (p.report, p.filer.inner.tree)
  | .memory => ((u.run markers MemoryFiler.empty).report, tree)

end Provisioning
