import ScriptImports.Batch
import ScriptImports.Resolution
import ScriptImports.Statement

/-!
The whole way from names to dependencies: every reference is resolved before anything is loaded, and
then all candidates are loaded as one batch.
-/
namespace ScriptImports

namespace World

def loadReferences (w : World) (s : Settings) (schedule : Schedule) (references : List Reference) :
    World × Except ImportFailure Dependencies :=
  match Resolution.resolveAll s w.tree references with
  | .error failure => (w, .error failure)
  | .ok resolved => w.loadBatch schedule (resolved.map fun r => (r.1, r.2.candidate))

/-- Finds the import statements of a program text and loads what they ask for. -/
def loadSource (w : World) (s : Settings) (schedule : Schedule) (code : String)
    (file : Option Path) : World × Except ImportFailure Dependencies :=
  w.loadReferences s schedule (Statement.scan code file)

end World

end ScriptImports
