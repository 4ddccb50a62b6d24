import ScriptImports.Import
import ScriptImports.Proofs.Tasks

/-!
The stages between a program's references and what it depends on. Every reference comes with its own
candidate out of the resolution, and with its own payload out of the batch; a batch that fails, fails
with one of the references it was started for.
-/
namespace ScriptImports

namespace Resolution

variable {s : Settings} {tree : FileTree} {references : List Reference}

theorem resolveAll_eq_ok {resolved : List (Reference × Resolution)}
    (h : resolveAll s tree references = .ok resolved) :
    resolved.map Prod.fst = references ∧ ∀ r ∈ resolved, resolve s tree r.1 = .ok r.2 := by
  induction references generalizing resolved with
  | nil =>
      cases h
      exact ⟨rfl, nofun⟩
  | cons r references ih =>
      rw [resolveAll] at h
      split at h
      · cases h
      next resolution here =>
      split at h
      · cases h
      next more there =>
      cases h
      obtain ⟨order, each⟩ := ih there
      refine ⟨by rw [List.map_cons, order], ?_⟩
      intro x hx
      cases List.mem_cons.1 hx with
      | inl same => rw [same, here]
      | inr hx => exact each x hx

/-- What the resolution hands on to the batch. -/
theorem resolveAll_candidates {resolved : List (Reference × Resolution)}
    (h : resolveAll s tree references = .ok resolved) :
    (resolved.map fun r => (r.1, r.2.candidate)).map Prod.fst = references ∧
      ∀ r ∈ resolved.map fun r => (r.1, r.2.candidate),
        ∃ trace, resolve s tree r.1 = .ok ⟨r.2, trace⟩ := by
  obtain ⟨order, each⟩ := resolveAll_eq_ok h
  constructor
  · rw [List.map_map]
    exact order
  · intro r hr
    obtain ⟨x, hx, rfl⟩ := List.mem_map.1 hr
    exact ⟨x.2.trace, each x hx⟩

/-- The resolution stops at the first reference that cannot be resolved. -/
theorem resolveAll_eq_error {f : ImportFailure} (h : resolveAll s tree references = .error f) :
    ∃ before r after, references = before ++ r :: after ∧
      (∀ b ∈ before, ∃ resolution, resolve s tree b = .ok resolution) ∧
      resolve s tree r = .error f := by
  induction references with
  | nil => cases h
  | cons r references ih =>
      rw [resolveAll] at h
      split at h
      · next here =>
          cases h
          exact ⟨[], r, references, rfl, nofun, here⟩
      next resolution here =>
      split at h
      · next there =>
          cases h
          obtain ⟨before, r', after, rfl, each, fails⟩ := ih there
          refine ⟨r :: before, r', after, rfl, ?_, fails⟩
          intro b hb
          cases List.mem_cons.1 hb with
          | inl same => exact ⟨resolution, same ▸ here⟩
          | inr hb => exact each b hb
      · cases h

end Resolution

namespace World

variable {w w' : World} {schedule : Schedule} {resolved : List (Reference × Candidate)}

/-- The batch that loads what references were resolved to. -/
def batch (w : World) (resolved : List (Reference × Candidate)) : Batch :=
  ⟨w, resolved.map fun r => .ofCandidate r.1 r.2⟩

theorem firstPhase_ne_finished (c : Candidate) : LoadTask.firstPhase c ≠ .finished := by
  obtain ⟨kind, location⟩ := c
  cases kind <;> cases location <;> nofun

theorem batch_fresh (w : World) (resolved : List (Reference × Candidate)) :
    ∀ task ∈ (w.batch resolved).tasks, task.phase ≠ .finished := by
  intro task there
  obtain ⟨r, _, rfl⟩ := List.mem_map.1 there
  exact firstPhase_ne_finished r.2

/-- Each task of the batch is owned by one of the references, and is about its candidate. -/
theorem serves_of_proceeds {turns : Turns} {values : List (Nat × Payload)} {m : Batch}
    (proceeds : Batch.Proceeds (w.batch resolved) turns values m) {i : Nat} {task : LoadTask}
    (there : m.tasks[i]? = some task) :
    ∃ r, resolved[i]? = some r ∧ task.owner = r.1 ∧ task.phase.Serves m.world r.2 := by
  obtain ⟨holds, _⟩ := proceeds.holds (.start w resolved)
  obtain ⟨c, at_i, serves⟩ := holds.serves i task there
  rw [List.getElem?_map] at at_i
  obtain ⟨r, at_r, rfl⟩ := Option.map_eq_some_iff.1 at_i
  have owners := congrArg (fun owners => owners[i]?) proceeds.owners
  refine ⟨r, at_r, ?_, serves⟩
  simpa [batch, LoadTask.ofCandidate, there, at_r] using owners

theorem zipWith_dependency (resolved : List (Reference × Candidate)) (payloads : List Payload)
    (length : payloads.length = resolved.length) :
    (resolved.zipWith (fun r payload => (⟨r.1, r.2, payload⟩ : Dependency)) payloads).map
      (fun d => (d.reference, d.candidate)) = resolved := by
  rw [List.map_zipWith]
  induction resolved generalizing payloads with
  | nil => rfl
  | cons r resolved ih =>
      cases payloads with
      | nil => cases length
      | cons a payloads =>
          rw [List.zipWith_cons_cons, ih payloads (by simpa using length)]

theorem loadBatch_eq_ok {deps : Dependencies}
    (h : w.loadBatch schedule resolved = (w', .ok deps)) :
    deps.map (fun d => (d.reference, d.candidate)) = resolved ∧
      ∃ turns values b', Batch.Proceeds (w.batch resolved) turns values b' ∧ b'.world = w' ∧
        ∀ d ∈ deps, ∃ i, resolved[i]? = some (d.reference, d.candidate) ∧
          (i, d.payload) ∈ values := by
  rw [loadBatch] at h
  cases (w.batch resolved).proceeds_or_stops ((w.batch resolved).allTurns schedule) with
  | inl all =>
      obtain ⟨values, b', proceeds⟩ := all
      obtain ⟨payloads, loaded, length, each⟩ := loadAll_of_proceeds (batch_fresh w resolved) proceeds
      rw [batch] at loaded length
      rw [loaded] at h
      cases h
      refine ⟨zipWith_dependency resolved payloads (by simpa using length), _, values, b', proceeds,
        rfl, ?_⟩
      intro d hd
      obtain ⟨i, there⟩ := List.getElem?_of_mem hd
      rw [List.getElem?_zipWith_eq_some] at there
      obtain ⟨r, a, at_r, at_a, rfl⟩ := there
      exact ⟨i, at_r, each i a at_a⟩
  | inr stopped =>
      obtain ⟨i, m, task, w'', cause, stops⟩ := stopped
      rw [loadAll_of_stops stops] at h
      cases h

theorem loadBatch_eq_error {f : ImportFailure}
    (h : w.loadBatch schedule resolved = (w', .error f)) :
    ∃ i m task w'' cause,
      Batch.Stops (w.batch resolved) ((w.batch resolved).allTurns schedule) i m task w'' cause ∧
      f = task.owner.failure cause ∧
      w' = Batch.leave ⟨w'', m.tasks.set i { task with phase := .finished }⟩ schedule.later := by
  rw [loadBatch] at h
  cases (w.batch resolved).proceeds_or_stops ((w.batch resolved).allTurns schedule) with
  | inl all =>
      obtain ⟨values, b', proceeds⟩ := all
      obtain ⟨payloads, loaded, _⟩ := loadAll_of_proceeds (batch_fresh w resolved) proceeds
      rw [batch] at loaded
      rw [loaded] at h
      cases h
  | inr stopped =>
      obtain ⟨i, m, task, w'', cause, stops⟩ := stopped
      rw [loadAll_of_stops stops] at h
      cases h
      exact ⟨i, m, task, w'', cause, stops, rfl, rfl⟩

theorem loadReferences_eq_ok {s : Settings} {references : List Reference} {deps : Dependencies}
    (h : w.loadReferences s schedule references = (w', .ok deps)) :
    ∃ resolved, Resolution.resolveAll s w.tree references = .ok resolved ∧
      w.loadBatch schedule (resolved.map fun r => (r.1, r.2.candidate)) = (w', .ok deps) := by
  rw [loadReferences] at h
  split at h
  · cases h
  · next resolved all => exact ⟨resolved, all, h⟩

/-- What fails a program is the resolution of its references, before anything else is done, or the
batch for all of them. -/
theorem loadReferences_eq_error {s : Settings} {references : List Reference} {f : ImportFailure}
    (h : w.loadReferences s schedule references = (w', .error f)) :
    (Resolution.resolveAll s w.tree references = .error f ∧ w' = w) ∨
      ∃ resolved, Resolution.resolveAll s w.tree references = .ok resolved ∧
        w.loadBatch schedule (resolved.map fun r => (r.1, r.2.candidate)) = (w', .error f) := by
  rw [loadReferences] at h
  split at h
  · next failure fails =>
      cases h
      exact Or.inl ⟨fails, rfl⟩
  · next resolved all => exact Or.inr ⟨resolved, all, h⟩

end World

end ScriptImports
