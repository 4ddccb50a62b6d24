import ScriptImports.Batch
import ScriptImports.Proofs.Tables
import Mathlib.Data.Set.List

/-!
Joining the tasks of a batch. Whatever the order in which they end, the join gives the value of
every task at the place of the task, or the failure of the first task that failed. The invariant
of the join is that the filled slots are exactly those of the tasks that have ended.
-/
namespace ScriptImports

variable {α : Type}

/-- The slots that are filled are those of the tasks that have ended, each with its value. -/
def Filled (slots : List (Option α)) (ended : List (Completion α)) : Prop :=
  ∀ i a, slots[i]? = some (some a) ↔
    i < slots.length ∧ ∃ c ∈ ended, c.place = i ∧ c.outcome = .value a

theorem filled_nil (count : Nat) : Filled (List.replicate count (none : Option α)) [] := by
  intro i a
  simp [List.getElem?_replicate]

theorem Filled.set {slots : List (Option α)} {ended : List (Completion α)} {c : Completion α}
    {a : α} (h : Filled slots ended) (fresh : ∀ e ∈ ended, e.place ≠ c.place)
    (value : c.outcome = .value a) :
    Filled (slots.set c.place (some a)) (ended ++ [c]) := by
  intro i b
  simp only [List.length_set, List.mem_append, List.mem_singleton]
  by_cases hi : c.place = i
  · subst hi
    rw [List.getElem?_set_self']
    constructor
    · intro there
      obtain ⟨inside, same⟩ : c.place < slots.length ∧ a = b := by
        by_cases inside : c.place < slots.length
        · simp_all [Function.const]
        · simp_all
      exact ⟨inside, c, Or.inr rfl, rfl, same ▸ value⟩
    · rintro ⟨inside, e, he | rfl, place, outcome⟩
      · exact absurd place (fresh e he)
      · rw [value] at outcome
        cases outcome
        simp [inside, Function.const]
  · rw [List.getElem?_set_ne hi, h i b]
    constructor
    · rintro ⟨inside, e, he, there⟩
      exact ⟨inside, e, Or.inl he, there⟩
    · rintro ⟨inside, e, he | rfl, place, outcome⟩
      · exact ⟨inside, e, he, place, outcome⟩
      · exact absurd place hi

/-- As long as tasks end with values, the join goes on, and the slots stay filled. -/
theorem fillSlots_values (owners : Owners) (ended : List (Completion α))
    (slots : List (Option α)) (before : List (Completion α)) (filled : Filled slots before)
    (values : ∀ c ∈ ended, ∃ a, c.outcome = .value a)
    (distinct : ((before ++ ended).map Completion.place).Nodup) :
    ∃ slots', slots'.length = slots.length ∧ Filled slots' (before ++ ended) ∧
      ∀ more, fillSlots owners slots (ended ++ more) = fillSlots owners slots' more := by
  induction ended generalizing slots before with
  | nil => exact ⟨slots, rfl, by simpa using filled, fun _ => rfl⟩
  | cons c ended ih =>
      obtain ⟨a, value⟩ := values c List.mem_cons_self
      have fresh : ∀ e ∈ before, e.place ≠ c.place := by
        intro e he same
        rw [List.map_append, List.nodup_append] at distinct
        exact distinct.2.2 e.place (List.mem_map_of_mem he) c.place (by simp) same
      obtain ⟨slots', length, filled', goes⟩ :=
        ih (slots.set c.place (some a)) (before ++ [c]) (filled.set fresh value)
          (fun e he => values e (List.mem_cons_of_mem c he)) (by simpa using distinct)
      refine ⟨slots', by simpa using length, by simpa using filled', fun more => ?_⟩
      rw [List.cons_append, fillSlots, value]
      exact goes more

/-- When all tasks have ended with values, the join gives them in the order of the tasks. -/
theorem collect_values (owners : Owners) (ended : List (Completion α))
    (values : ∀ c ∈ ended, ∃ a, c.outcome = .value a)
    (distinct : (ended.map Completion.place).Nodup)
    (complete : ∀ i < owners.length, ∃ c ∈ ended, c.place = i) :
    ∃ as : List α, collect owners ended = .ok as ∧ as.length = owners.length ∧
      ∀ i a, as[i]? = some a → ∃ c ∈ ended, c.place = i ∧ c.outcome = .value a := by
  obtain ⟨slots, length, filled, goes⟩ :=
    fillSlots_values owners ended _ [] (filled_nil owners.length) values (by simpa using distinct)
  rw [List.length_replicate] at length
  have full : slots ∈ Set.range (List.map some) := by
    rw [Set.range_list_map]
    intro slot there
    obtain ⟨i, inside, rfl⟩ := List.mem_iff_getElem.1 there
    obtain ⟨c, hc, place⟩ := complete i (length ▸ inside)
    obtain ⟨a, value⟩ := values c hc
    have held := (filled i a).2 ⟨inside, c, by simpa using hc, place, value⟩
    rw [List.getElem?_eq_getElem inside, Option.some.injEq] at held
    exact ⟨a, held.symm⟩
  obtain ⟨as, rfl⟩ := full
  refine ⟨as, ?_, by simpa using length, fun i a there => ?_⟩
  · have all := goes []
    rw [List.append_nil, fillSlots] at all
    simp [collect, all]
  · simpa using ((filled i a).1 (by simp [there])).2

/-- The first task that fails decides the join, whatever ended before and after it. -/
theorem collect_failure (owners : Owners) (before after : List (Completion α)) (c : Completion α)
    (values : ∀ e ∈ before, ∃ a, e.outcome = .value a) (f : ImportFailure)
    (fails : c.outcome = .failure f ∨
      ∃ detail owner, c.outcome = .crash detail ∧ owners.lookup c.id = some owner ∧
        f = owner.failure (.aborted detail)) :
    collect owners (before ++ c :: after) = .error f := by
  have goes : ∀ slots : List (Option α), ∃ slots',
      fillSlots owners slots (before ++ c :: after) = fillSlots owners slots' (c :: after) := by
    intro slots
    induction before generalizing slots with
    | nil => exact ⟨slots, rfl⟩
    | cons e before ih =>
        obtain ⟨a, value⟩ := values e List.mem_cons_self
        rw [List.cons_append, fillSlots, value]
        exact ih (fun d hd => values d (List.mem_cons_of_mem e hd)) _
  obtain ⟨slots, ends⟩ := goes (List.replicate owners.length none)
  rw [collect, ends, fillSlots]
  rcases fails with failure | ⟨detail, owner, crash, known, rfl⟩
  · rw [failure]
  · rw [crash, known]

/-- A spawned task, with the way in which it will end. -/
structure Spawned (α : Type) where
  id : TaskId
  owner : Reference
  outcome : Outcome α

namespace Spawned

/-- What a task fails with, if it does: its own failure, or that it broke down, told with the
file and the line of the import that it works for. -/
def failure? (t : Spawned α) : Option ImportFailure :=
  match t.outcome with
  | .value _ => none
  | .failure f => some f
  | .crash detail => some ⟨.aborted detail, t.owner.file, t.owner.line⟩

/-- How tasks end one after the other, in an order of their places. -/
def completions (tasks : List (Spawned α)) (order : List Nat) : List (Completion α) :=
  order.filterMap fun i => tasks[i]?.map fun t => ⟨t.id, i, t.outcome⟩

theorem mem_completions {tasks : List (Spawned α)} {order : List Nat} {c : Completion α} :
    c ∈ completions tasks order ↔
      ∃ i ∈ order, ∃ t, tasks[i]? = some t ∧ c = ⟨t.id, i, t.outcome⟩ := by
  simp [completions, eq_comm]

theorem nodup_completions {tasks : List (Spawned α)} {order : List Nat} (h : order.Nodup) :
    ((completions tasks order).map Completion.place).Nodup := by
  rw [completions, List.map_filterMap]
  apply List.Pairwise.filterMap _ _ h
  intro i j differ place hi place' hj
  rw [Option.map_map, Option.map_eq_some_iff] at hi hj
  obtain ⟨_, _, rfl⟩ := hi
  obtain ⟨_, _, rfl⟩ := hj
  exact differ

theorem failure?_eq_none_iff {t : Spawned α} :
    t.failure? = none ↔ ∃ a, t.outcome = .value a := by
  cases h : t.outcome <;> simp [failure?, h]

end Spawned

/-- Joins tasks that end in an order of their places. -/
def joinAll (tasks : List (Spawned α)) (order : List Nat) : Except ImportFailure (List α) :=
  collect (tasks.map fun t => (t.id, t.owner)) (Spawned.completions tasks order)

theorem joinAll_values {tasks : List (Spawned α)} {order : List Nat}
    (complete : order.Perm (List.range tasks.length))
    (values : ∀ i ∈ order, tasks[i]?.bind Spawned.failure? = none) :
    ∃ as, joinAll tasks order = .ok as ∧ tasks.map Spawned.outcome = as.map .value := by
  have ended : ∀ c ∈ Spawned.completions tasks order, ∃ a, c.outcome = .value a := by
    intro c hc
    obtain ⟨i, hi, t, ht, rfl⟩ := Spawned.mem_completions.1 hc
    have sound := values i hi
    rw [ht] at sound
    exact Spawned.failure?_eq_none_iff.1 sound
  have covered : ∀ i < (tasks.map fun t => (t.id, t.owner)).length,
      ∃ c ∈ Spawned.completions tasks order, c.place = i := by
    intro i inside
    rw [List.length_map] at inside
    refine ⟨_, Spawned.mem_completions.2 ⟨i, ?_, _, List.getElem?_eq_getElem inside, rfl⟩, rfl⟩
    exact complete.mem_iff.2 (List.mem_range.2 inside)
  obtain ⟨as, joined, length, each⟩ :=
    collect_values (tasks.map fun t => (t.id, t.owner)) _ ended
      (Spawned.nodup_completions (complete.nodup_iff.2 List.nodup_range)) covered
  refine ⟨as, joined, ?_⟩
  apply List.ext_getElem?
  intro i
  rw [List.getElem?_map, List.getElem?_map]
  cases ha : as[i]? with
  | none =>
      have outside : tasks.length ≤ i := by
        simpa [length] using List.getElem?_eq_none_iff.1 ha
      simp [List.getElem?_eq_none outside]
  | some a =>
      obtain ⟨c, hc, rfl, value⟩ := each i a ha
      obtain ⟨i, _, t, ht, rfl⟩ := Spawned.mem_completions.1 hc
      simpa [ht] using value

theorem joinAll_failure {tasks : List (Spawned α)} {order : List Nat}
    (distinct : (tasks.map Spawned.id).Nodup) {f : ImportFailure}
    (first : order.findSome? (fun i => tasks[i]?.bind Spawned.failure?) = some f) :
    joinAll tasks order = .error f := by
  obtain ⟨before, i, after, rfl, fails, sound⟩ := List.findSome?_eq_some_iff.1 first
  obtain ⟨t, ht, fails⟩ := Option.bind_eq_some_iff.1 fails
  have split : Spawned.completions tasks (before ++ i :: after) =
      Spawned.completions tasks before ++
        ⟨t.id, i, t.outcome⟩ :: Spawned.completions tasks after := by
    simp [Spawned.completions, ht]
  rw [joinAll, split]
  apply collect_failure
  · intro c hc
    obtain ⟨j, hj, u, hu, rfl⟩ := Spawned.mem_completions.1 hc
    have none := sound j hj
    rw [hu] at none
    exact Spawned.failure?_eq_none_iff.1 none
  · cases outcome : t.outcome with
    | value a => simp [Spawned.failure?, outcome] at fails
    | failure g =>
        rw [Spawned.failure?, outcome] at fails
        exact Or.inl (by cases fails; rfl)
    | crash detail =>
        rw [Spawned.failure?, outcome] at fails
        -- the task was spawned with the others, so its identity is among the owners
        have known : (t.id, t.owner) ∈ tasks.map fun t => (t.id, t.owner) :=
          List.mem_map_of_mem (List.mem_of_getElem? ht)
        exact Or.inr ⟨detail, t.owner, rfl,
          Table.lookup_of_mem (by simpa [Function.comp_def] using distinct) known,
          by cases fails; rfl⟩

/-- In every order in which the tasks can end, the join gives all values in the order of the tasks
if every task has one, and else the failure of the task that is the first to fail. -/
theorem joinAll_in_every_order (tasks : List (Spawned α)) (order : List Nat)
    (distinct : (tasks.map Spawned.id).Nodup)
    (complete : order.Perm (List.range tasks.length)) :
    (∀ as, joinAll tasks order = .ok as ↔ tasks.map Spawned.outcome = as.map .value) ∧
    (∀ f, joinAll tasks order = .error f ↔
      order.findSome? (fun i => tasks[i]?.bind Spawned.failure?) = some f) := by
  cases first : order.findSome? fun i => tasks[i]?.bind Spawned.failure? with
  | none =>
      obtain ⟨values, joined, outcomes⟩ :=
        joinAll_values complete (List.findSome?_eq_none_iff.1 first)
      constructor
      · intro as
        rw [joined, outcomes, Except.ok.injEq]
        exact (List.map_inj_right fun _ _ => Outcome.value.inj).symm
      · intro f
        simp [joined]
  | some g =>
      have failed := joinAll_failure distinct first
      constructor
      · intro as
        rw [failed]
        refine ⟨nofun, fun values => ?_⟩
        -- all outcomes are values, so no task can have failed
        obtain ⟨i, _, fails⟩ := List.exists_of_findSome?_eq_some first
        obtain ⟨t, ht, fails⟩ := Option.bind_eq_some_iff.1 fails
        have outcome : t.outcome ∈ as.map Outcome.value :=
          values ▸ List.mem_map_of_mem (List.mem_of_getElem? ht)
        obtain ⟨a, _, value⟩ := List.mem_map.1 outcome
        rw [Spawned.failure?_eq_none_iff.2 ⟨a, value.symm⟩] at fails
        cases fails
      · intro f
        rw [failed, Except.error.injEq, Option.some.injEq]

/-- Three tasks that all end differently, spawned under identities that are not their places. -/
def mixedBatch : List (Spawned String) :=
  let file := some (Path.ofString "/proj/main.nako3")
  [⟨7, ⟨"a.nako3", file, 1⟩, .value "a"⟩,
   ⟨4, ⟨"b.nako3", file, 6⟩, .crash "broke down"⟩,
   ⟨9, ⟨"c.nako3", file, 8⟩, .failure ⟨.read (Path.ofString "/proj/c.nako3") "gone", file, 8⟩⟩]

/-- The task that breaks down ends before the one that fails, so the import in line 6 is told. -/
theorem joinAll_mixedBatch :
    (mixedBatch.map Spawned.id).Nodup ∧ [0, 1, 2].Perm (List.range mixedBatch.length) ∧
      joinAll mixedBatch [0, 1, 2] =
        .error ⟨.aborted "broke down", some (Path.ofString "/proj/main.nako3"), 6⟩ := by
  have distinct : (mixedBatch.map Spawned.id).Nodup := by decide
  have complete : [0, 1, 2].Perm (List.range mixedBatch.length) := by decide
  have joined := (joinAll_in_every_order mixedBatch [0, 1, 2] distinct complete).2
  exact ⟨distinct, complete, (joined _).2 rfl⟩

end ScriptImports
