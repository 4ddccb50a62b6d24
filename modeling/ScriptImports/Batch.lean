import ScriptImports.Loading

/-!
Batches: the tasks of a program's imports, run together. A schedule says whose turn it is; when it
is used up, the tasks that are left take turns in the order of the imports. The first task that
fails, in the order in which they end, fails the batch; otherwise every payload comes back at the
place of its import. A batch that fails does not wait for the stagings of its other tasks, so that
they may still go on when it has failed.
-/
namespace ScriptImports

/-- What a task is known by while it runs. -/
abbrev TaskId := Nat

/-- How a task of a batch ended. The task itself knows its place in the batch; of one that broke
down only its identity is known. -/
structure Completion (α : Type) where
  id : TaskId
  place : Nat
  outcome : Outcome α
deriving DecidableEq

/-- The references that tasks work for, by the identities of the tasks. -/
abbrev Owners := List (TaskId × Reference)

/-- Puts values into the slots of their tasks, up to the first completion that is none. -/
def fillSlots {α : Type} (owners : Owners) (slots : List (Option α)) :
    List (Completion α) → Except ImportFailure (List (Option α))
  | [] => .ok slots
  | c :: more =>
    match c.outcome with
    | .value a => fillSlots owners (slots.set c.place (some a)) more
    | .failure f => .error f
    | .crash detail =>
      .error
        (match owners.lookup c.id with
        | some owner => owner.failure (.aborted detail)
        | none => ⟨.aborted detail, none, 0⟩)

/-- The values of all tasks in the order of the tasks, or the first failure in the order of the
completions. -/
def collect {α : Type} (owners : Owners) (completions : List (Completion α)) :
    Except ImportFailure (List α) :=
  match fillSlots owners (List.replicate owners.length none) completions with
  | .ok slots => .ok (slots.filterMap id)
  | .error f => .error f

/-- Whose turn it is, by the places of the tasks. -/
abbrev Turns := List Nat

structure Schedule where
  turns : Turns
  /-- The turns of tasks that a failed batch has left behind, up to the moment at which the world is
  looked at again. -/
  later : Turns

structure Batch where
  world : World
  tasks : List LoadTask

namespace Batch

/-- One action of the task at a place, if there is one that has not finished. -/
def turn (b : Batch) (i : Nat) : Batch × Option (Outcome Payload) :=
  match b.tasks[i]? with
  | none => (b, none)
  | some task =>
    match task.step b.world with
    | (world, .next phase) => (⟨world, b.tasks.set i { task with phase := phase }⟩, none)
    | (world, .ended outcome) =>
      (⟨world, b.tasks.set i { task with phase := .finished }⟩, some outcome)

/-- One more action of the task at a place, when nobody waits for it any more. -/
def goOn (b : Batch) (i : Nat) : Batch :=
  match b.tasks[i]? with
  | none => b
  | some task => ⟨(task.goOn b.world).1, b.tasks.set i (task.goOn b.world).2⟩

/-- The world when the tasks of a failed batch have had more turns. -/
def leave (b : Batch) (later : Turns) : World := (later.foldl goOn b).world

/-- Runs turn by turn up to the first failure, and gives the completions in order. -/
def run (b : Batch) (later : Turns) : Turns → World × List (Completion Payload)
  | [] => (b.world, [])
  | i :: turns =>
    match b.turn i with
    | (b, none) => b.run later turns
    | (b, some (.value payload)) =>
      let (world, completions) := b.run later turns
      (world, ⟨i, i, .value payload⟩ :: completions)
    | (b, some outcome) => (b.leave later, [⟨i, i, outcome⟩])

/-- The owners of the tasks. Tasks get their identities in the order they are spawned. -/
def owners (b : Batch) : Owners := b.tasks.zipIdx.map fun (task, i) => (i, task.owner)

/-- Turns enough for every task: as many rounds as the longest way has actions. -/
def rounds (count : Nat) : Turns :=
  (List.replicate LoadTask.maxSteps (List.range count)).flatten

end Batch

structure Dependency where
  reference : Reference
  candidate : Candidate
  payload : Payload
deriving DecidableEq

abbrev Dependencies := List Dependency

namespace Dependencies

def scripts (d : Dependencies) : List (Location × String) :=
  d.filterMap fun x =>
    match x.payload with
    | .script text => some (x.candidate.location, text)
    | .native _ => none

def natives (d : Dependencies) : List (Location × Factory) :=
  d.filterMap fun x =>
    match x.payload with
    | .native factory => some (x.candidate.location, factory)
    | .script _ => none

end Dependencies

namespace World

def loadAll (w : World) (schedule : Schedule) (tasks : List LoadTask) :
    World × Except ImportFailure (List Payload) :=
  let batch := Batch.mk w tasks
  let (world, completions) :=
    batch.run schedule.later (schedule.turns ++ Batch.rounds tasks.length)
  (world, collect batch.owners completions)

/-- Loads what references were resolved to: all of it, or nothing. -/
def loadBatch (w : World) (schedule : Schedule) (resolved : List (Reference × Candidate)) :
    World × Except ImportFailure Dependencies :=
  match w.loadAll schedule (resolved.map fun r => .ofCandidate r.1 r.2) with
  | (w, .ok payloads) =>
    (w, .ok (resolved.zipWith (fun r payload => ⟨r.1, r.2, payload⟩) payloads))
  | (w, .error f) => (w, .error f)

end World

end ScriptImports
