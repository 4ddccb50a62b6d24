import ScriptImports.Proofs.Turns

/-!
A task that is loaded alone. Whatever the schedule says, its actions follow one another up to its
end, so that the batch gives what the task gives, or tells its failure.
-/
namespace ScriptImports

namespace LoadTask

/-- Where a task comes to when nothing happens between its actions: the world at its end, and its
value or the cause of its failure. -/
inductive Reaches : World → LoadPhase → World → Except FailureCause Payload → Prop
  | gives {w w' : World} {phase : LoadPhase} {a : Payload} :
    Gives w phase w' a → Reaches w phase w' (.ok a)
  | fails {w w' : World} {phase : LoadPhase} {cause : FailureCause} :
    Fails w phase w' cause → Reaches w phase w' (.error cause)
  | goes {w m w' : World} {phase next : LoadPhase} {result : Except FailureCause Payload} :
    Goes w phase m next → Reaches m next w' result → Reaches w phase w' result

theorem Ends.ne_value {owner : Reference} {cause : FailureCause} {outcome : Outcome Payload}
    (ends : Ends owner cause outcome) (a : Payload) : outcome ≠ .value a := by
  obtain rfl | ⟨_, _, rfl⟩ := ends <;> nofun

theorem Ends.unique {owner : Reference} {cause other : FailureCause} {outcome : Outcome Payload}
    (ends : Ends owner cause outcome) (ends' : Ends owner other outcome) : cause = other := by
  obtain rfl | ⟨detail, rfl, rfl⟩ := ends
  · obtain same | ⟨_, _, crash⟩ := ends'
    · exact congrArg ImportFailure.cause (Outcome.failure.inj same)
    · cases crash
  · obtain failure | ⟨_, rfl, same⟩ := ends'
    · cases failure
    · cases same
      rfl

namespace Reaches

variable {w m w' : World} {t : LoadTask} {result : Except FailureCause Payload}

/-! A task has one action at a time, so what it comes to lies behind any action that it does. -/

theorem of_goes {next : LoadPhase} (reaches : Reaches w t.phase w' result)
    (goes : Goes w t.phase m next) : Reaches m next w' result := by
  have step := goes.step
  cases reaches with
  | gives gives =>
      rw [gives.step] at step
      cases step
  | fails fails =>
      obtain ⟨outcome, failed, _⟩ := fails.step
      rw [failed] at step
      cases step
  | goes first rest =>
      rw [first.step] at step
      cases step
      exact rest

theorem of_gives {a : Payload} (reaches : Reaches w t.phase w' result)
    (gives : Gives w t.phase m a) : m = w' ∧ result = .ok a := by
  have step := gives.step
  cases reaches with
  | gives gives' =>
      rw [gives'.step] at step
      cases step
      exact ⟨rfl, rfl⟩
  | fails fails =>
      obtain ⟨outcome, failed, ends⟩ := fails.step
      rw [failed] at step
      cases step
      exact absurd rfl (ends.ne_value a)
  | goes goes _ =>
      rw [goes.step] at step
      cases step

theorem of_fails {cause : FailureCause} (reaches : Reaches w t.phase w' result)
    (fails : Fails w t.phase m cause) : m = w' ∧ result = .error cause := by
  obtain ⟨outcome, step, ends⟩ := fails.step
  cases reaches with
  | gives gives =>
      rw [gives.step] at step
      cases step
      exact absurd rfl (ends.ne_value _)
  | fails fails' =>
      obtain ⟨outcome', step', ends'⟩ := fails'.step
      rw [step'] at step
      cases step
      exact ⟨rfl, congrArg Except.error (ends'.unique ends)⟩
  | goes goes _ =>
      rw [goes.step] at step
      cases step

end Reaches

theorem Fails.going {w w' : World} {phase : LoadPhase} {cause : FailureCause}
    (fails : Fails w phase w' cause) : phase ≠ .finished := by
  rintro rfl
  cases fails with
  | refused fetch _ | crashed fetch _ => obtain same | same := fetch <;> cases same

theorem Reaches.going {w w' : World} {phase : LoadPhase} {result : Except FailureCause Payload}
    (reaches : Reaches w phase w' result) : phase ≠ .finished := by
  cases reaches with
  | gives gives => exact mt LoadPhase.remaining_eq_zero.2 gives.going
  | fails fails => exact fails.going
  | goes goes _ => cases goes <;> nofun

end LoadTask

namespace Batch

/-- The one task of a batch is on its way to an end, or has come there with a value. -/
def Heads (owner : Reference) (w' : World) (result : Except FailureCause Payload) (b : Batch) :
    Prop :=
  ∃ phase, b.tasks = [⟨owner, phase⟩] ∧
    (LoadTask.Reaches b.world phase w' result ∨
      phase = .finished ∧ b.world = w' ∧ ∃ a, result = .ok a)

variable {b b' : Batch} {owner : Reference} {w' : World} {result : Except FailureCause Payload}

theorem Heads.task {i : Nat} {task : LoadTask} (heads : Heads owner w' result b)
    (there : b.tasks[i]? = some task) :
    i = 0 ∧ task.owner = owner ∧ (LoadTask.Reaches b.world task.phase w' result ∨
      task.phase = .finished ∧ b.world = w' ∧ ∃ a, result = .ok a) := by
  obtain ⟨phase, tasks, rest⟩ := heads
  rw [tasks, List.getElem?_singleton] at there
  split at there
  · next first =>
      cases there
      exact ⟨first, rfl, rest⟩
  · cases there

theorem Proceeds.heads {turns : Turns} {values : List (Nat × Payload)}
    (proceeds : Proceeds b turns values b') (start : Heads owner w' result b) :
    Heads owner w' result b' := by
  apply proceeds.keeps (P := Heads owner w' result) ?_ start
  intro b m i task phase heads there tasks acts
  obtain ⟨rfl, rfl, reaches | ⟨finished, _⟩⟩ := heads.task there
  · refine ⟨phase, ?_, ?_⟩
    · obtain ⟨_, before, _⟩ := heads
      rw [tasks, before]
      rfl
    · obtain goes | ⟨a, rfl, gives⟩ := acts
      · exact Or.inl (reaches.of_goes goes)
      · obtain ⟨world, value⟩ := reaches.of_gives gives
        exact Or.inr ⟨rfl, world, a, value⟩
  · rw [finished] at acts
    obtain goes | ⟨a, _, gives⟩ := acts
    · cases goes
    · cases gives

end Batch

/-- A batch of one task leaves the world that the task comes to, and its result, a failure with the
reference that the task is for. -/
theorem World.loadAll_alone {w w' : World} {task : LoadTask}
    {result : Except FailureCause Payload} (reaches : LoadTask.Reaches w task.phase w' result)
    (schedule : Schedule) :
    w.loadAll schedule [task] =
      (w', (result.map fun a => [a]).mapError task.owner.failure) := by
  have start : Batch.Heads task.owner w' result ⟨w, [task]⟩ := ⟨task.phase, rfl, Or.inl reaches⟩
  obtain ⟨values, b', proceeds⟩ | ⟨i, m, task', m', cause, stops⟩ :=
    Batch.proceeds_or_stops ⟨w, [task]⟩ (Batch.allTurns ⟨w, [task]⟩ schedule)
  · have fresh : ∀ t ∈ [task], t.phase ≠ .finished := by
      intro t ht
      rw [List.mem_singleton.1 ht]
      exact reaches.going
    obtain ⟨payloads, loaded, length, each⟩ := loadAll_of_proceeds fresh proceeds
    obtain ⟨a, rfl⟩ := List.length_eq_one_iff.1 length
    obtain ⟨before, after, _, _, m, m', task', first, there, gives, _, _⟩ :=
      proceeds.given (each 0 a rfl)
    have world : b'.world = w' := by
      obtain ⟨phase, tasks, reaches | ⟨_, world, _⟩⟩ := proceeds.heads start
      · have left : phase.remaining = 0 := by
          rw [← proceeds.complete 0, Batch.remaining, tasks]
          rfl
        exact absurd (LoadPhase.remaining_eq_zero.1 left) reaches.going
      · exact world
    obtain ⟨_, _, reaches | ⟨finished, _⟩⟩ := (first.heads start).task there
    · obtain ⟨_, rfl⟩ := reaches.of_gives gives
      rw [loaded, world]
      rfl
    · rw [finished] at gives
      cases gives
  · have loaded := loadAll_of_stops stops
    obtain ⟨turns, proceeds, there, fails⟩ := stops
    have heads := proceeds.heads start
    obtain ⟨rfl, owner, reaches | ⟨finished, _⟩⟩ := heads.task there
    · obtain ⟨rfl, rfl⟩ := reaches.of_fails fails
      obtain ⟨_, tasks, _⟩ := heads
      rw [loaded, owner, tasks, Batch.leave_of_idle]
      · rfl
      · intro other hother
        rw [List.set_cons_zero, List.mem_singleton] at hother
        rw [hother]
        rfl
    · exact absurd finished fails.going

/-- A remote native module that is fetched and staged comes to what the registry makes of its
file. -/
theorem LoadTask.Reaches.of_stage {w : World} {url : String} {body : ByteArray} {s : Staging}
    {t : FileTree} {path : Path} (reply : w.network.reply url = .body body)
    (staged : w.staging.stage w.tree url body = (s, t, .ok path)) :
    Reaches w (.fetchModule url) { w.fetch url with staging := s, tree := t }
      (((w.registry.load t path).map .native).mapError (.code path)) := by
  obtain ⟨rfl, rfl, made, opened, filled, temporary, makes, opens, fills, moves⟩ :=
    Staging.stage_eq_ok staged
  refine .goes (.fetches reply) (.goes (.stages (.makes makes)) (.goes (.stages (.opens opens))
    (.goes (.stages (.writes fills)) (.goes (.stages (.moves moves)) (.goes (.staged rfl) ?_)))))
  cases load : w.registry.load t (w.staging.target url) with
  | ok factory => exact .gives (.loads load)
  | error fault => exact .fails (.unloaded load)

end ScriptImports
