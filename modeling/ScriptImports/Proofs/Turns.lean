import ScriptImports.Proofs.Actions
import ScriptImports.Proofs.Joining

/-!
Runs of a batch as sequences of turns. A run that no failure ends gives every task all the turns it
needs, so that each of them ends with one value; any other run follows such a sequence up to the turn
in which the first task fails. What the actions of the tasks do is left to other modules, but for the
number of them that a task has still to do.
-/
namespace ScriptImports

namespace LoadTask.Progress

def phase : Progress → LoadPhase
  | .next phase => phase
  | .ended _ => .finished

def outcome? : Progress → Option (Outcome Payload)
  | .next _ => none
  | .ended outcome => some outcome

end LoadTask.Progress

def StagePhase.remaining : StagePhase → Nat
  | .begun => 5
  | .directoryMade => 4
  | .opened _ => 3
  | .written _ => 2
  | .moved => 1

/-- The number of actions that a task has still to do. -/
def LoadPhase.remaining : LoadPhase → Nat
  | .checkScript _ => 2
  | .readScript _ | .fetchScript _ | .loadModule _ => 1
  | .fetchModule _ => 7
  | .stageModule write => write.phase.remaining + 1
  | .finished => 0

theorem LoadPhase.remaining_eq_zero {phase : LoadPhase} :
    phase.remaining = 0 ↔ phase = .finished := by
  cases phase <;> simp [remaining]

theorem LoadPhase.remaining_le (phase : LoadPhase) : phase.remaining ≤ LoadTask.maxSteps := by
  cases phase with
  | stageModule write => cases h : write.phase <;> simp [remaining, StagePhase.remaining, h, LoadTask.maxSteps]
  | checkScript _ | readScript _ | fetchScript _ | fetchModule _ | loadModule _ | finished =>
      simp [remaining, LoadTask.maxSteps]

theorem StagedWrite.Goes.nearer {s : Staging} {t t' : FileTree} {w w' : StagedWrite}
    (goes : w.Goes s t t' w') :
    0 < w'.phase.remaining ∧ w'.phase.remaining < w.phase.remaining := by
  cases goes <;> simp [StagePhase.remaining]

/-- An action that does not end a task brings it nearer to its end. -/
theorem LoadTask.Goes.nearer {w w' : World} {phase phase' : LoadPhase}
    (goes : LoadTask.Goes w phase w' phase') :
    0 < phase'.remaining ∧ phase'.remaining < phase.remaining := by
  cases goes with
  | checks _ => simp [LoadPhase.remaining]
  | fetches _ => simp [LoadPhase.remaining, StagePhase.remaining]
  | stages goes =>
      have := goes.nearer
      simp only [LoadPhase.remaining]
      omega
  | staged moved => simp [LoadPhase.remaining, moved, StagePhase.remaining]

theorem LoadTask.Gives.going {w w' : World} {phase : LoadPhase} {a : Payload}
    (gives : LoadTask.Gives w phase w' a) : phase.remaining ≠ 0 := by
  cases gives <;> simp [LoadPhase.remaining]

theorem LoadTask.goOn_nearer (w : World) (t : LoadTask) :
    (t.goOn w).2.phase.remaining ≤ t.phase.remaining - 1 := by
  cases own : t.phase.write? with
  | none =>
      rw [goOn_idle w own]
      exact Nat.zero_le _
  | some write =>
      obtain ⟨owner, rfl⟩ := of_write?_eq_some own
      rw [goOn_staging]
      obtain ⟨_, goes⟩ | ⟨_, write', goes, nearer⟩ | ⟨_, _, goes, _⟩ | ⟨_, goes⟩ :=
        StagedWrite.goOn_cases w.staging w.tree write <;> rw [goes]
      · exact Nat.zero_le _
      · have := nearer.nearer
        dsimp only [Option.map_some, Option.getD_some, LoadPhase.remaining]
        omega
      · exact Nat.zero_le _
      · exact Nat.zero_le _

namespace Batch

theorem set_of_getElem? {α : Type} {l : List α} {i : Nat} {a : α} (h : l[i]? = some a) :
    l.set i a = l := by
  obtain ⟨inside, rfl⟩ := List.getElem?_eq_some_iff.1 h
  exact List.set_getElem_self inside

theorem turn_none {b : Batch} {i : Nat} (h : b.tasks[i]? = none) : b.turn i = (b, none) := by
  rw [turn, h]

theorem turn_some {b : Batch} {i : Nat} {task : LoadTask} (h : b.tasks[i]? = some task) :
    b.turn i =
      (⟨(task.step b.world).1,
        b.tasks.set i { task with phase := (task.step b.world).2.phase }⟩,
        (task.step b.world).2.outcome?) := by
  rw [turn, h]
  dsimp only
  cases hs : task.step b.world with
  | mk world progress => cases progress <;> rfl

/-- Turns in which no task fails: the batch that they lead to, and the values of the tasks that end,
each with the place of its task. -/
inductive Proceeds : Batch → Turns → List (Nat × Payload) → Batch → Prop
  | done (b : Batch) : Proceeds b [] [] b
  | quiet {b m b' : Batch} {i : Nat} {turns : Turns} {values : List (Nat × Payload)} :
    b.turn i = (m, none) → Proceeds m turns values b' → Proceeds b (i :: turns) values b'
  | value {b m b' : Batch} {i : Nat} {turns : Turns} {a : Payload}
    {values : List (Nat × Payload)} :
    b.turn i = (m, some (.value a)) → Proceeds m turns values b' →
      Proceeds b (i :: turns) ((i, a) :: values) b'

/-- Values as completions. A task is known by its place. -/
def completed (values : List (Nat × Payload)) : List (Completion Payload) :=
  values.map fun v => ⟨v.1, v.1, .value v.2⟩

theorem completed_value {values : List (Nat × Payload)} {c : Completion Payload}
    (h : c ∈ completed values) : ∃ v ∈ values, c = ⟨v.1, v.1, .value v.2⟩ := by
  obtain ⟨v, hv, rfl⟩ := List.mem_map.1 h
  exact ⟨v, hv, rfl⟩

theorem run_quiet {b m : Batch} {i : Nat} (h : b.turn i = (m, none)) (later turns : Turns) :
    b.run later (i :: turns) = m.run later turns := by
  rw [run, h]

theorem run_value {b m : Batch} {i : Nat} {a : Payload} (h : b.turn i = (m, some (.value a)))
    (later turns : Turns) :
    b.run later (i :: turns) =
      ((m.run later turns).1, ⟨i, i, .value a⟩ :: (m.run later turns).2) := by
  rw [run, h]

theorem run_failed {b b' : Batch} {i : Nat} {outcome : Outcome Payload}
    (h : b.turn i = (b', some outcome)) (other : ∀ a, outcome ≠ .value a) (later turns : Turns) :
    b.run later (i :: turns) = (b'.leave later, [⟨i, i, outcome⟩]) := by
  rw [run, h]
  cases outcome with
  | value a => exact absurd rfl (other a)
  | failure _ | crash _ => rfl

theorem Proceeds.run_append {b b' : Batch} {turns : Turns} {values : List (Nat × Payload)}
    (proceeds : Proceeds b turns values b') (later after : Turns) :
    b.run later (turns ++ after) =
      ((b'.run later after).1, completed values ++ (b'.run later after).2) := by
  induction proceeds with
  | done _ => rfl
  | quiet turn _ ih => rw [List.cons_append, run_quiet turn, ih]
  | value turn _ ih =>
      rw [List.cons_append, run_value turn, ih]
      rfl

/-- A turn that no task fails in ends none, or one with a value. -/
inductive Sound : Option (Outcome Payload) → Prop
  | quiet : Sound none
  | value (a : Payload) : Sound (some (.value a))

/-- What a turn does that no task fails in: nothing, or an action of the task whose turn it is. -/
theorem turn_cases {b m : Batch} {i : Nat} {ended : Option (Outcome Payload)}
    (h : b.turn i = (m, ended)) (sound : Sound ended) :
    (m = b ∧ ended = none ∧ ∀ task, b.tasks[i]? = some task → task.phase = .finished) ∨
    ∃ task phase, b.tasks[i]? = some task ∧ m.tasks = b.tasks.set i { task with phase := phase } ∧
      ((ended = none ∧ LoadTask.Goes b.world task.phase m.world phase) ∨
        ∃ a, ended = some (.value a) ∧ phase = .finished ∧
          LoadTask.Gives b.world task.phase m.world a) := by
  cases there : b.tasks[i]? with
  | none =>
      rw [turn_none there] at h
      cases h
      exact Or.inl ⟨rfl, rfl, nofun⟩
  | some task =>
      rw [turn_some there] at h
      obtain ⟨w', phase, step, goes⟩ | ⟨w', a, step, gives⟩ | ⟨w', outcome, cause, step, _, ends⟩ |
        ⟨finished, step⟩ := LoadTask.step_cases b.world task
      · rw [step] at h
        cases h
        exact Or.inr ⟨task, phase, rfl, rfl, Or.inl ⟨rfl, goes⟩⟩
      · rw [step] at h
        cases h
        exact Or.inr ⟨task, .finished, rfl, rfl, Or.inr ⟨a, rfl, rfl, gives⟩⟩
      · rw [step] at h
        cases h
        cases sound
        obtain failure | ⟨_, _, crash⟩ := ends
        · cases failure
        · cases crash
      · rw [step] at h
        cases h
        refine Or.inl ⟨?_, rfl, ?_⟩
        · have same : { task with phase := LoadPhase.finished } = task := by rw [← finished]
          dsimp only [LoadTask.Progress.phase]
          rw [same, set_of_getElem? there]
        · intro other same
          cases same
          exact finished

def remaining (b : Batch) (i : Nat) : Nat := (b.tasks[i]?.map fun t => t.phase.remaining).getD 0

theorem remaining_le (b : Batch) (i : Nat) : b.remaining i ≤ LoadTask.maxSteps := by
  rw [remaining]
  cases b.tasks[i]? with
  | none => exact Nat.zero_le _
  | some task => exact task.phase.remaining_le

theorem remaining_of_length_le {b : Batch} {i : Nat} (h : b.tasks.length ≤ i) : b.remaining i = 0 := by
  rw [remaining, List.getElem?_eq_none h]
  rfl

/-- A task that has had as many turns as a task can need is at its end. -/
theorem remaining_eq_zero {b m : Batch} {turns : Turns}
    (nearer : ∀ i, m.remaining i ≤ b.remaining i - turns.count i)
    (enough : ∀ i < b.tasks.length, LoadTask.maxSteps ≤ turns.count i) (i : Nat) :
    m.remaining i = 0 := by
  have left := nearer i
  by_cases inside : i < b.tasks.length
  · have most := b.remaining_le i
    have turns := enough i inside
    omega
  · have none := remaining_of_length_le (Nat.le_of_not_lt inside)
    omega

theorem remaining_set {b m : Batch} {i : Nat} {task task' : LoadTask}
    (there : b.tasks[i]? = some task) (tasks : m.tasks = b.tasks.set i task') (j : Nat) :
    m.remaining j = if j = i then task'.phase.remaining else b.remaining j := by
  obtain ⟨inside, _⟩ := List.getElem?_eq_some_iff.1 there
  rw [remaining, tasks]
  split
  · next same => simp [same, inside]
  · next other => rw [List.getElem?_set_ne (Ne.symm other), remaining]

/-- Whose turn it is comes nearer to its end, and the others stay where they are. A task that ends
with a value had not ended before, and one that does not is not at its end. -/
theorem turn_remaining {b m : Batch} {i : Nat} {ended : Option (Outcome Payload)}
    (h : b.turn i = (m, ended)) (sound : Sound ended) :
    (∀ j ≠ i, m.remaining j = b.remaining j) ∧ m.remaining i ≤ b.remaining i - 1 ∧
      (ended = none → b.remaining i ≠ 0 → m.remaining i ≠ 0) ∧
      (ended ≠ none → b.remaining i ≠ 0 ∧ m.remaining i = 0) := by
  obtain ⟨rfl, rfl, finished⟩ | ⟨task, phase, there, tasks, acts⟩ := turn_cases h sound
  · have none : m.remaining i = 0 := by
      rw [remaining]
      cases there : m.tasks[i]? with
      | none => rfl
      | some task => exact LoadPhase.remaining_eq_zero.2 (finished task there)
    refine ⟨fun _ _ => rfl, by omega, fun _ going => going, fun some => absurd rfl some⟩
  · have set := remaining_set there tasks
    have before : b.remaining i = task.phase.remaining := by rw [remaining, there]; rfl
    have after : m.remaining i = phase.remaining := by rw [set, if_pos rfl]
    refine ⟨fun j other => by rw [set, if_neg other], ?_⟩
    rw [before, after]
    obtain ⟨quiet, goes⟩ | ⟨a, value, rfl, gives⟩ := acts
    · have nearer := goes.nearer
      exact ⟨by omega, fun _ _ => by omega, fun some => absurd quiet some⟩
    · refine ⟨Nat.zero_le _, fun quiet => ?_, fun _ => ⟨gives.going, rfl⟩⟩
      rw [value] at quiet
      cases quiet

theorem turn_nearer {b m : Batch} {i : Nat} {ended : Option (Outcome Payload)}
    (h : b.turn i = (m, ended)) (sound : Sound ended)
    (j : Nat) : m.remaining j ≤ b.remaining j - if i == j then 1 else 0 := by
  obtain ⟨others, nearer, _⟩ := turn_remaining h sound
  by_cases same : i = j
  · simpa [same] using same ▸ nearer
  · simp [same, others j (Ne.symm same)]

namespace Proceeds

variable {b b' : Batch} {turns : Turns} {values : List (Nat × Payload)}

/-- What every action keeps that no task fails in, a whole run of them keeps. -/
theorem keeps {P : Batch → Prop} (proceeds : Proceeds b turns values b')
    (action : ∀ {b m : Batch} {i : Nat} {task : LoadTask} {phase : LoadPhase}, P b →
      b.tasks[i]? = some task → m.tasks = b.tasks.set i { task with phase := phase } →
      (LoadTask.Goes b.world task.phase m.world phase ∨
        ∃ a, phase = .finished ∧ LoadTask.Gives b.world task.phase m.world a) → P m)
    (start : P b) : P b' := by
  have turn : ∀ {b m : Batch} {i : Nat} {ended : Option (Outcome Payload)},
      b.turn i = (m, ended) → Sound ended → P b → P m := by
    intro b m i ended h sound kept
    obtain ⟨rfl, _⟩ | ⟨task, phase, there, tasks, acts⟩ := turn_cases h sound
    · exact kept
    · apply action kept there tasks
      obtain ⟨_, goes⟩ | ⟨a, _, finished, gives⟩ := acts
      · exact Or.inl goes
      · exact Or.inr ⟨a, finished, gives⟩
  induction proceeds with
  | done _ => exact start
  | quiet h _ ih => exact ih (turn h .quiet start)
  | value h _ ih => exact ih (turn h (.value _) start)

theorem owners (proceeds : Proceeds b turns values b') :
    b'.tasks.map LoadTask.owner = b.tasks.map LoadTask.owner := by
  apply proceeds.keeps (P := fun m => m.tasks.map LoadTask.owner = b.tasks.map LoadTask.owner)
  · intro b m i task phase same there tasks _
    rw [← same, tasks, List.map_set]
    exact set_of_getElem? (by rw [List.getElem?_map, there, Option.map_some])
  · rfl

/-- Every value was given in a turn of its task, in between the turns before and after it. -/
theorem given (proceeds : Proceeds b turns values b') {i : Nat} {a : Payload}
    (h : (i, a) ∈ values) :
    ∃ before after values₁ values₂ m m' task, Proceeds b before values₁ m ∧
      m.tasks[i]? = some task ∧ LoadTask.Gives m.world task.phase m'.world a ∧
      m'.tasks = m.tasks.set i { task with phase := .finished } ∧
      Proceeds m' after values₂ b' := by
  induction proceeds with
  | done _ => cases h
  | quiet turn _ ih =>
      obtain ⟨before, after, values₁, values₂, m, m', task, proceeds, rest⟩ := ih h
      exact ⟨_ :: before, after, values₁, values₂, m, m', task, .quiet turn proceeds, rest⟩
  | @value b m b' j turns c values turn later ih =>
      cases List.mem_cons.1 h with
      | inl same =>
          cases same
          obtain ⟨_, quiet, _⟩ | ⟨task, phase, there, tasks, acts⟩ :=
            turn_cases turn (.value _)
          · cases quiet
          · obtain ⟨quiet, _⟩ | ⟨a', value, rfl, gives⟩ := acts
            · cases quiet
            · cases value
              exact ⟨[], turns, [], values, b, m, task, .done b, there, gives, tasks, later⟩
      | inr h =>
          obtain ⟨before, after, values₁, values₂, m, m', task, proceeds, rest⟩ := ih h
          exact ⟨j :: before, after, (j, c) :: values₁, values₂, m, m', task,
            .value turn proceeds, rest⟩

theorem remaining_le (proceeds : Proceeds b turns values b') (j : Nat) :
    b'.remaining j ≤ b.remaining j - turns.count j := by
  induction proceeds with
  | done _ => exact Nat.le_refl _
  | quiet turn _ ih =>
      have nearer := turn_nearer turn .quiet j
      rw [List.count_cons]
      omega
  | value turn _ ih =>
      have nearer := turn_nearer turn (.value _) j
      rw [List.count_cons]
      omega

theorem ended (proceeds : Proceeds b turns values b') {j : Nat} (going : b.remaining j ≠ 0)
    (nothingLeft : b'.remaining j = 0) : ∃ a, (j, a) ∈ values := by
  induction proceeds with
  | done _ => exact absurd nothingLeft going
  | @quiet b m b' i turns values turn _ ih =>
      obtain ⟨others, _, stays, _⟩ := turn_remaining turn .quiet
      apply ih _ nothingLeft
      by_cases same : j = i
      · rw [same] at going ⊢
        exact stays rfl going
      · rw [others j same]
        exact going
  | @value b m b' i turns a values turn _ ih =>
      by_cases same : j = i
      · exact ⟨a, same ▸ List.mem_cons_self⟩
      · obtain ⟨others, _⟩ := turn_remaining turn (.value _)
        obtain ⟨c, there⟩ := ih (others j same ▸ going) nothingLeft
        exact ⟨c, List.mem_cons_of_mem _ there⟩

theorem nothing_after (proceeds : Proceeds b turns values b') {j : Nat} (nothingLeft : b.remaining j = 0) :
    j ∉ values.map Prod.fst := by
  induction proceeds with
  | done _ => exact List.not_mem_nil
  | @quiet b m b' i turns values turn _ ih =>
      obtain ⟨others, nearer, _⟩ := turn_remaining turn .quiet
      apply ih
      by_cases same : j = i
      · rw [same] at nothingLeft ⊢
        omega
      · rw [others j same, nothingLeft]
  | @value b m b' i turns a values turn _ ih =>
      obtain ⟨others, _, _, ends⟩ :=
        turn_remaining turn (.value _)
      have other : j ≠ i := by
        intro same
        exact (ends nofun).1 (same ▸ nothingLeft)
      rw [List.map_cons, List.mem_cons, not_or]
      exact ⟨other, ih (by rw [others j other, nothingLeft])⟩

theorem nodup (proceeds : Proceeds b turns values b') : (values.map Prod.fst).Nodup := by
  induction proceeds with
  | done _ => exact List.nodup_nil
  | quiet _ _ ih => exact ih
  | value turn later ih =>
      rw [List.map_cons, List.nodup_cons]
      have ends := (turn_remaining turn (.value _)).2.2.2
      exact ⟨later.nothing_after (ends nofun).2, ih⟩

end Proceeds

theorem count_rounds {n i : Nat} (h : i < n) : (rounds n).count i = LoadTask.maxSteps := by
  have each : (List.range n).count i = 1 := by
    rw [List.nodup_range.count, if_pos (List.mem_range.2 h)]
  rw [rounds, List.count_flatten, List.map_replicate, each]
  rfl

/-- The turns that follow those of a schedule are enough for every task. -/
theorem Proceeds.complete {b b' : Batch} {turns : Turns} {values : List (Nat × Payload)}
    (proceeds : Proceeds b (turns ++ rounds b.tasks.length) values b') (i : Nat) :
    b'.remaining i = 0 := by
  refine remaining_eq_zero proceeds.remaining_le (fun j inside => ?_) i
  rw [List.count_append, count_rounds inside]
  exact Nat.le_add_left _ _

theorem mem_owners {b : Batch} {i : Nat} {owner : Reference} :
    (i, owner) ∈ b.owners ↔ (b.tasks.map LoadTask.owner)[i]? = some owner := by
  simp [owners, List.mem_zipIdx_iff_getElem?]

theorem nodup_owners (b : Batch) : (b.owners.map Prod.fst).Nodup := by
  have places : b.owners.map Prod.fst = b.tasks.zipIdx.map Prod.snd := by
    rw [owners, List.map_map]
    rfl
  rw [places, List.zipIdx_map_snd]
  exact List.nodup_range'

/-- What a turn does that a task fails in. -/
theorem turn_fails {b b' : Batch} {i : Nat} {outcome : Outcome Payload}
    (h : b.turn i = (b', some outcome)) (other : ∀ a, outcome ≠ .value a) :
    ∃ task w' cause, b.tasks[i]? = some task ∧ LoadTask.Fails b.world task.phase w' cause ∧
      LoadTask.Ends task.owner cause outcome ∧
      b' = ⟨w', b.tasks.set i { task with phase := .finished }⟩ := by
  cases there : b.tasks[i]? with
  | none =>
      rw [turn_none there] at h
      cases h
  | some task =>
      rw [turn_some there] at h
      obtain ⟨w', phase, step, _⟩ | ⟨w', a, step, _⟩ | ⟨w', outcome', cause, step, fails, ends⟩ |
        ⟨_, step⟩ := LoadTask.step_cases b.world task
      · rw [step] at h
        cases h
      · rw [step] at h
        cases h
        exact absurd rfl (other a)
      · rw [step] at h
        cases h
        exact ⟨task, w', cause, rfl, fails, ends, rfl⟩
      · rw [step] at h
        cases h

end Batch

namespace Batch.Proceeds

variable {b b' : Batch} {turns : Turns} {values : List (Nat × Payload)}

/-- When all tasks have come to their ends without a failure, every payload is at the place of its
task. -/
theorem collect_completed (proceeds : Proceeds b turns values b')
    (fresh : ∀ i < b.tasks.length, b.remaining i ≠ 0) (nothingLeft : ∀ i, b'.remaining i = 0) :
    ∃ payloads, collect b.owners (completed values) = .ok payloads ∧
      payloads.length = b.tasks.length ∧ ∀ i a, payloads[i]? = some a → (i, a) ∈ values := by
  have count : b.owners.length = b.tasks.length := by simp [Batch.owners]
  have all : ∀ c ∈ completed values, ∃ a, c.outcome = .value a := by
    intro c hc
    obtain ⟨v, _, rfl⟩ := completed_value hc
    exact ⟨v.2, rfl⟩
  have distinct : ((completed values).map Completion.place).Nodup := by
    rw [completed, List.map_map]
    exact proceeds.nodup
  have covered : ∀ i < b.owners.length, ∃ c ∈ completed values, c.place = i := by
    intro i inside
    obtain ⟨a, there⟩ := proceeds.ended (fresh i (count ▸ inside)) (nothingLeft i)
    exact ⟨_, List.mem_map_of_mem there, rfl⟩
  obtain ⟨payloads, joined, length, each⟩ := collect_values b.owners _ all distinct covered
  refine ⟨payloads, joined, length.trans count, fun i a there => ?_⟩
  obtain ⟨c, hc, rfl, value⟩ := each i a there
  obtain ⟨v, hv, rfl⟩ := completed_value hc
  cases value
  exact hv

/-- The first failure is told with the reference of the task that fails. -/
theorem collect_failed (proceeds : Proceeds b turns values b') {i : Nat} {task : LoadTask}
    (there : b'.tasks[i]? = some task) {cause : FailureCause} {outcome : Outcome Payload}
    (ends : LoadTask.Ends task.owner cause outcome) :
    collect b.owners (completed values ++ [⟨i, i, outcome⟩]) =
      .error (task.owner.failure cause) := by
  have owner : b.owners.lookup i = some task.owner := by
    apply Table.lookup_of_mem b.nodup_owners
    rw [mem_owners, ← proceeds.owners, List.getElem?_map, there]
    rfl
  apply collect_failure
  · intro c hc
    obtain ⟨v, _, rfl⟩ := completed_value hc
    exact ⟨v.2, rfl⟩
  · obtain failure | ⟨detail, rfl, crash⟩ := ends
    · exact Or.inl failure
    · exact Or.inr ⟨detail, task.owner, crash, owner, rfl⟩

end Batch.Proceeds

namespace Batch

def allTurns (b : Batch) (schedule : Schedule) : Turns :=
  schedule.turns ++ rounds b.tasks.length

/-- Turns that stop when the task at `i` fails. The batch has come to `m` by then, and the failing
action leads to the world `w'`. -/
inductive Stops (b : Batch) (turns : Turns) (i : Nat) (m : Batch) (task : LoadTask) (w' : World)
    (cause : FailureCause) : Prop
  | intro {before after : Turns} {values : List (Nat × Payload)} :
    turns = before ++ i :: after → Proceeds b before values m → m.tasks[i]? = some task →
      LoadTask.Fails m.world task.phase w' cause → Stops b turns i m task w' cause

theorem Stops.quiet {b c m : Batch} {turns : Turns} {i j : Nat} {task : LoadTask} {w' : World}
    {cause : FailureCause} (h : b.turn j = (c, none)) (stops : Stops c turns i m task w' cause) :
    Stops b (j :: turns) i m task w' cause := by
  obtain ⟨rfl, proceeds, there, fails⟩ := stops
  exact .intro (List.cons_append ..).symm (.quiet h proceeds) there fails

theorem Stops.value {b c m : Batch} {turns : Turns} {i j : Nat} {a : Payload} {task : LoadTask}
    {w' : World} {cause : FailureCause} (h : b.turn j = (c, some (.value a)))
    (stops : Stops c turns i m task w' cause) : Stops b (j :: turns) i m task w' cause := by
  obtain ⟨rfl, proceeds, there, fails⟩ := stops
  exact .intro (List.cons_append ..).symm (.value h proceeds) there fails

/-- A run takes all its turns, or stops in the first one in which a task fails. -/
theorem proceeds_or_stops (b : Batch) (turns : Turns) :
    (∃ values b', Proceeds b turns values b') ∨
      ∃ i m task w' cause, Stops b turns i m task w' cause := by
  induction turns generalizing b with
  | nil => exact Or.inl ⟨[], b, .done b⟩
  | cons i turns ih =>
      cases h : b.turn i with
      | mk c ended =>
          by_cases sound : Sound ended
          · cases ih c with
            | inl all =>
                obtain ⟨values, b', proceeds⟩ := all
                cases sound with
                | quiet => exact Or.inl ⟨values, b', .quiet h proceeds⟩
                | value a => exact Or.inl ⟨(i, a) :: values, b', .value h proceeds⟩
            | inr stopped =>
                obtain ⟨j, m, task, w', cause, stops⟩ := stopped
                cases sound with
                | quiet => exact Or.inr ⟨j, m, task, w', cause, stops.quiet h⟩
                | value a => exact Or.inr ⟨j, m, task, w', cause, stops.value h⟩
          · cases ended with
            | none => exact absurd .quiet sound
            | some outcome =>
                have other : ∀ a, outcome ≠ .value a := by
                  intro a same
                  exact sound (same ▸ .value a)
                obtain ⟨task, w', cause, there, fails, _⟩ := turn_fails h other
                exact Or.inr ⟨i, b, task, w', cause, .intro rfl (.done b) there fails⟩

/-! Tasks that a failed batch has left behind. -/

theorem goOn_nearer (b : Batch) (i j : Nat) :
    (b.goOn i).remaining j ≤ b.remaining j - if i == j then 1 else 0 := by
  cases there : b.tasks[i]? with
  | none =>
      have same : b.goOn i = b := by rw [goOn, there]
      have ended (same : i = j) : b.remaining j = 0 := by rw [remaining, ← same, there]; rfl
      rw [same]
      split
      · next its => rw [ended (by simpa using its)]
      · exact Nat.le_refl _
  | some task =>
      have goes : b.goOn i = ⟨(task.goOn b.world).1, b.tasks.set i (task.goOn b.world).2⟩ := by
        rw [goOn, there]
      rw [remaining_set there (congrArg Batch.tasks goes)]
      have nearer := LoadTask.goOn_nearer b.world task
      by_cases same : j = i
      · have before : b.remaining i = task.phase.remaining := by rw [remaining, there]; rfl
        simpa [same, before] using nearer
      · simp [same, Ne.symm same]

theorem leave_nearer (b : Batch) (later : Turns) (j : Nat) :
    (later.foldl goOn b).remaining j ≤ b.remaining j - later.count j := by
  induction later generalizing b with
  | nil => exact Nat.le_refl _
  | cons i later ih =>
      have first := goOn_nearer b i j
      have rest := ih (b.goOn i)
      rw [List.foldl_cons, List.count_cons]
      omega

/-- Tasks that are at no staging do nothing more. -/
theorem leave_of_idle {b : Batch} (idle : ∀ task ∈ b.tasks, task.phase.write? = none)
    (later : Turns) : b.leave later = b.world := by
  induction later generalizing b with
  | nil => rfl
  | cons i later ih =>
      cases there : b.tasks[i]? with
      | none =>
          have same : b.goOn i = b := by rw [goOn, there]
          rw [leave, List.foldl_cons, same]
          exact ih idle
      | some task =>
          have goes : b.goOn i = ⟨b.world, b.tasks.set i { task with phase := .finished }⟩ := by
            rw [goOn, there]
            dsimp only
            rw [LoadTask.goOn_idle _ (idle task (List.mem_of_getElem? there))]
          rw [leave, List.foldl_cons, goes]
          apply ih
          intro other hother
          cases List.mem_or_eq_of_mem_set hother with
          | inl before => exact idle other before
          | inr its =>
              rw [its]
              rfl

end Batch

namespace World

theorem loadAll_eq (w : World) (schedule : Schedule) (tasks : List LoadTask) :
    w.loadAll schedule tasks =
      ((Batch.run ⟨w, tasks⟩ schedule.later (Batch.allTurns ⟨w, tasks⟩ schedule)).1,
        collect (Batch.owners ⟨w, tasks⟩)
          (Batch.run ⟨w, tasks⟩ schedule.later (Batch.allTurns ⟨w, tasks⟩ schedule)).2) := rfl

theorem loadAll_of_proceeds {w : World} {schedule : Schedule} {tasks : List LoadTask} {b' : Batch}
    {values : List (Nat × Payload)} (fresh : ∀ task ∈ tasks, task.phase ≠ .finished)
    (proceeds : Batch.Proceeds ⟨w, tasks⟩ (Batch.allTurns ⟨w, tasks⟩ schedule) values b') :
    ∃ payloads, w.loadAll schedule tasks = (b'.world, .ok payloads) ∧
      payloads.length = tasks.length ∧ ∀ i a, payloads[i]? = some a → (i, a) ∈ values := by
  have going : ∀ i < tasks.length, Batch.remaining ⟨w, tasks⟩ i ≠ 0 := by
    intro i inside
    have at_i : (Batch.mk w tasks).tasks[i]? = some tasks[i] := List.getElem?_eq_getElem inside
    rw [Batch.remaining, at_i]
    exact mt LoadPhase.remaining_eq_zero.1 (fresh _ (List.getElem_mem inside))
  obtain ⟨payloads, joined, length, each⟩ := proceeds.collect_completed going proceeds.complete
  have runs := proceeds.run_append schedule.later []
  rw [List.append_nil, Batch.run, List.append_nil] at runs
  exact ⟨payloads, by rw [loadAll_eq, runs, joined], length, each⟩

/-- What is told is the failure of the task that fails first. The others are left behind. -/
theorem loadAll_of_stops {w w' : World} {schedule : Schedule} {tasks : List LoadTask} {i : Nat}
    {m : Batch} {task : LoadTask} {cause : FailureCause}
    (stops : Batch.Stops ⟨w, tasks⟩ (Batch.allTurns ⟨w, tasks⟩ schedule) i m task w' cause) :
    w.loadAll schedule tasks =
      (Batch.leave ⟨w', m.tasks.set i { task with phase := .finished }⟩ schedule.later,
        .error (task.owner.failure cause)) := by
  obtain ⟨turns, proceeds, there, fails⟩ := stops
  obtain ⟨outcome, step, ends⟩ := fails.step
  have turn : m.turn i =
      (⟨w', m.tasks.set i { task with phase := .finished }⟩, some outcome) := by
    rw [Batch.turn_some there, step]
    rfl
  have other : ∀ a, outcome ≠ .value a := by
    obtain rfl | ⟨_, _, rfl⟩ := ends <;> nofun
  rw [loadAll_eq, turns, proceeds.run_append, Batch.run_failed turn other,
    proceeds.collect_failed there ends]

end World

end ScriptImports
