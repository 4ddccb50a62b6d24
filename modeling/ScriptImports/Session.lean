import ScriptImports.Import

/-!
Sessions: programs handed to an engine one after the other. The engine is called once for a program,
and only when all that it depends on is loaded.
-/
namespace ScriptImports

inductive ExecMode where
  | run
  | test
  | compile
deriving DecidableEq

def ExecMode.label : ExecMode → String
  | .run => "run"
  | .test => "test"
  | .compile => "compile"

structure Program where
  mode : ExecMode
  code : String
  file : Option Path
deriving DecidableEq

structure Execution where
  program : Program
  dependencies : Dependencies
deriving DecidableEq

/-- A failed call of the engine: what went wrong, and what lies beneath it, outermost first. -/
structure EngineFailure where
  text : String
  beneath : List String
deriving DecidableEq

abbrev Engine := Execution → Except EngineFailure Unit

inductive SessionFailure where
  | imports (failure : ImportFailure)
  | engine (mode : ExecMode) (failure : EngineFailure)
deriving DecidableEq

def SessionFailure.message : SessionFailure → String
  | .imports failure => failure.message
  | .engine mode failure =>
    mode.label ++ " failed: " ++ ": ".intercalate (failure.text :: failure.beneath)

structure Session where
  settings : Settings
  world : World
  /-- The calls of the engine so far, the first one first. -/
  executions : List Execution

namespace Session

/-- Loads what a program depends on and hands both to the engine. -/
def run (s : Session) (engine : Engine) (schedule : Schedule) (p : Program) :
    Session × Except SessionFailure Dependencies :=
  match s.world.loadSource s.settings schedule p.code p.file with
  | (world, .error failure) => ({ s with world := world }, .error (.imports failure))
  | (world, .ok dependencies) =>
    let execution : Execution := ⟨p, dependencies⟩
    let s := { s with world := world, executions := s.executions ++ [execution] }
    match engine execution with
    | .ok () => (s, .ok dependencies)
    | .error failure => (s, .error (.engine p.mode failure))

end Session

end ScriptImports
