import ScriptImports.Proofs.Delivery
import ScriptImports.Proofs.Failing
import ScriptImports.Session

/-!
Sessions over time. Between its runs the files and the replies of the network may change in any way;
what earlier runs have staged stays. The calls of the engine form a history that is only added to: a
run adds its own call when all its imports are loaded, and nothing when one of them fails.
-/
namespace ScriptImports

/-- What happens in a session, or around it. -/
inductive SessionStep where
  | run (engine : Engine) (schedule : Schedule) (program : Program)
  | files (change : FileTree → FileTree)
  | network (change : Network → Network)

namespace Session

def after (s : Session) : SessionStep → Session
  | .run engine schedule program => (s.run engine schedule program).1
  | .files change => { s with world := { s.world with tree := change s.world.tree } }
  | .network change => { s with world := { s.world with network := change s.world.network } }

def play (s : Session) (steps : List SessionStep) : Session := steps.foldl after s

/-- What a run makes of a program whose imports load. -/
def verdict (engine : Engine) (execution : Execution) : Except SessionFailure Dependencies :=
  match engine execution with
  | .ok () => .ok execution.dependencies
  | .error failure => .error (.engine execution.program.mode failure)

/-- An import of a program fails in a run under a schedule. -/
def ImportFails (s : Session) (schedule : Schedule) (program : Program) : Prop :=
  ∃ failure, s.world.Blames s.settings schedule (Statement.scan program.code program.file) failure

/-- A run with one call: all imports are loaded, and the engine is given what the caller gets. -/
def Executes (s : Session) (engine : Engine) (schedule : Schedule) (program : Program) : Prop :=
  ∃ world dependencies,
    s.world.Loads world s.settings (Statement.scan program.code program.file) dependencies ∧
    s.run engine schedule program =
      ({ s with
          world := world
          executions := s.executions ++ [⟨program, dependencies⟩] },
        verdict engine ⟨program, dependencies⟩)

/-- A run without a call: the caller gets the failure of an import. -/
def Refuses (s : Session) (engine : Engine) (schedule : Schedule) (program : Program) : Prop :=
  ∃ world failure,
    s.world.Blames s.settings schedule (Statement.scan program.code program.file) failure ∧
    s.run engine schedule program = ({ s with world := world }, .error (.imports failure))

theorem refuses {s : Session} {schedule : Schedule} {program : Program} (engine : Engine)
    (fails : s.ImportFails schedule program) : s.Refuses engine schedule program := by
  obtain ⟨_, blames⟩ := fails
  obtain ⟨world, failure, loaded⟩ := World.loadReferences_of_blames blames
  refine ⟨world, failure, World.loadReferences_blames loaded, ?_⟩
  rw [run, World.loadSource, loaded]

theorem executes {s : Session} {schedule : Schedule} {program : Program} (engine : Engine)
    (sound : ¬ s.ImportFails schedule program) : s.Executes engine schedule program := by
  cases h : s.world.loadSource s.settings schedule program.code program.file with
  | mk world loaded =>
      cases loaded with
      | ok dependencies =>
          refine ⟨world, dependencies, World.loadReferences_loads h, ?_⟩
          rw [run, h, verdict]
          dsimp only
          cases engine ⟨program, dependencies⟩ <;> rfl
      | error failure => exact absurd ⟨failure, World.loadReferences_blames h⟩ sound

def Records (s : Session) : SessionStep → Prop
  | .run engine schedule program =>
    (s.ImportFails schedule program → s.Refuses engine schedule program) ∧
      (¬ s.ImportFails schedule program → s.Executes engine schedule program)
  | .files change => (s.after (.files change)).executions = s.executions
  | .network change => (s.after (.network change)).executions = s.executions

theorem records (s : Session) (step : SessionStep) : s.Records step := by
  cases step with
  | run engine schedule program => exact ⟨refuses engine, executes engine⟩
  | files _ | network _ => rfl

theorem executions_prefix_after (s : Session) (step : SessionStep) :
    s.executions <+: (s.after step).executions := by
  cases step with
  | run engine schedule program =>
      rw [after]
      by_cases fails : s.ImportFails schedule program
      · obtain ⟨world, failure, _, runs⟩ := refuses engine fails
        simpa only [runs] using List.prefix_refl s.executions
      · obtain ⟨world, dependencies, _, runs⟩ := executes engine fails
        simpa only [runs] using List.prefix_append s.executions _
  | files _ | network _ => exact List.prefix_rfl

theorem executions_prefix_play (s : Session) (steps : List SessionStep) :
    s.executions <+: (s.play steps).executions := by
  induction steps generalizing s with
  | nil => exact List.prefix_rfl
  | cons step steps ih => exact (s.executions_prefix_after step).trans (ih (s.after step))

theorem play_append (s : Session) (before later : List SessionStep) :
    s.play (before ++ later) = (s.play before).play later :=
  List.foldl_append ..

/-- In every session the history only grows at its end, from each point to each later one, and each
run adds its own call or, where an import fails, nothing. -/
theorem play_records (s : Session) (before later : List SessionStep) (step : SessionStep) :
    (s.play before).executions <+: (s.play (before ++ later)).executions ∧
      (s.play before).Records step := by
  constructor
  · rw [play_append]
    exact executions_prefix_play _ later
  · exact records _ step

end Session

end ScriptImports
