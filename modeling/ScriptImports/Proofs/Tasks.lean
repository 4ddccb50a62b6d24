import ScriptImports.Proofs.Area
import ScriptImports.Proofs.Turns

/-!
What the tasks of a batch rely on while it runs. Replies, registered modules and the staging directory
stay as they were, and what a task has come to is a stage on the way to its own candidate, whatever
the other tasks do in between.
-/
namespace ScriptImports

open FileTree

theorem Staging.target_congr {s s' : Staging} (h : s'.directory = s.directory) (url : String) :
    s'.target url = s.target url := by
  rw [target, target, h]

/-- `w'` may come after `w` in a batch, as far as its tasks rely on it. -/
structure World.Follows (w w' : World) : Prop where
  reply (url : String) : w'.network.reply url = w.network.reply url
  text : w'.network.text = w.network.text
  registry : w'.registry = w.registry
  directory : w'.staging.directory = w.staging.directory
  entry (url : String) : w'.staging.get? url = w.staging.get? url ∨
    w'.staging.get? url = some (w.staging.target url)

namespace World.Follows

variable {w m w' : World}

theorem refl (w : World) : Follows w w := ⟨fun _ => rfl, rfl, rfl, rfl, fun _ => Or.inl rfl⟩

theorem trans (first : Follows w m) (second : Follows m w') : Follows w w' := by
  refine ⟨fun url => ?_, ?_, ?_, ?_, fun url => ?_⟩
  · rw [second.reply, first.reply]
  · rw [second.text, first.text]
  · rw [second.registry, first.registry]
  · rw [second.directory, first.directory]
  · cases second.entry url with
    | inl same =>
        rw [same]
        exact first.entry url
    | inr staged => exact Or.inr (by rw [staged, Staging.target_congr first.directory])

/-- An entry that names the file of its URL goes on doing so. -/
theorem entry_target (follows : Follows w w') {url : String}
    (h : w.staging.get? url = some (w.staging.target url)) :
    w'.staging.get? url = some (w'.staging.target url) := by
  rw [Staging.target_congr follows.directory]
  cases follows.entry url with
  | inl same => rw [same, h]
  | inr staged => exact staged

theorem fetch (w : World) (url : String) : Follows w (w.fetch url) :=
  ⟨fun _ => Network.reply_fetch .., rfl, rfl, rfl, fun _ => Or.inl rfl⟩

theorem record (w : World) (url : String) :
    Follows w { w with staging := w.staging.record url } := by
  refine ⟨fun _ => rfl, rfl, rfl, rfl, fun other => ?_⟩
  dsimp only
  rw [Staging.get?_record]
  split
  · next same => exact Or.inr (by rw [same])
  · exact Or.inl rfl

end World.Follows

theorem LoadTask.Goes.follows {w w' : World} {phase phase' : LoadPhase}
    (goes : LoadTask.Goes w phase w' phase') : w.Follows w' := by
  cases goes with
  | checks _ => exact .refl _
  | fetches _ => exact .fetch _ _
  | stages _ => exact ⟨fun _ => rfl, rfl, rfl, rfl, fun _ => Or.inl rfl⟩
  | staged _ => exact .record _ _

theorem LoadTask.Gives.follows {w w' : World} {phase : LoadPhase} {a : Payload}
    (gives : LoadTask.Gives w phase w' a) : w.Follows w' := by
  cases gives with
  | reads _ | loads _ => exact .refl _
  | fetches _ _ => exact .fetch _ _

namespace LoadPhase

/-- A phase on the way to a candidate. -/
def Serves (w : World) (c : Candidate) : LoadPhase → Prop
  | .checkScript p | .readScript p => c = ⟨.script, .path p⟩
  | .fetchScript url => c = ⟨.script, .url url⟩
  | .fetchModule url => c = ⟨.native, .url url⟩
  | .stageModule write =>
    c = ⟨.native, .url write.url⟩ ∧ w.network.reply write.url = .body write.body
  | .loadModule p =>
    c = ⟨.native, .path p⟩ ∨
      ∃ url body, c = ⟨.native, .url url⟩ ∧ p = w.staging.target url ∧
        w.staging.get? url = some (w.staging.target url) ∧ w.network.reply url = .body body
  | .finished => True

theorem serves_firstPhase (w : World) (c : Candidate) : (LoadTask.firstPhase c).Serves w c := by
  obtain ⟨kind, location⟩ := c
  cases kind with
  | script => cases location <;> rfl
  | native =>
      cases location with
      | path p => exact Or.inl rfl
      | url u => rfl

/-- What the other tasks do takes no task off its way. -/
theorem Serves.follows {w w' : World} {c : Candidate} {phase : LoadPhase}
    (serves : phase.Serves w c) (follows : w.Follows w') : phase.Serves w' c := by
  cases phase with
  | checkScript _ | readScript _ | fetchScript _ | fetchModule _ => exact serves
  | stageModule write =>
      obtain ⟨same, reply⟩ := serves
      exact ⟨same, (follows.reply _).trans reply⟩
  | loadModule p =>
      cases serves with
      | inl local_ => exact Or.inl local_
      | inr remote =>
          obtain ⟨url, body, same, place, entry, reply⟩ := remote
          refine Or.inr ⟨url, body, same, ?_, follows.entry_target entry, ?_⟩
          · rw [Staging.target_congr follows.directory, place]
          · rw [follows.reply, reply]
  | finished => trivial

end LoadPhase

theorem LoadTask.Goes.serves {w w' : World} {c : Candidate} {phase phase' : LoadPhase}
    (goes : LoadTask.Goes w phase w' phase') (serves : phase.Serves w c) : phase'.Serves w' c := by
  cases goes with
  | checks _ => exact serves
  | fetches reply => exact ⟨serves, reply⟩
  | stages goes =>
      obtain ⟨url, body⟩ := goes.same
      rw [LoadPhase.Serves, url, body]
      exact serves
  | @staged write moved =>
      obtain ⟨same, reply⟩ := serves
      refine Or.inr ⟨write.url, write.body, same, rfl, ?_, reply⟩
      dsimp only
      rw [Staging.get?_record, if_pos rfl]
      rfl

/-- What a task can rely on in the staging area. -/
def LoadPhase.Fits (base : FileTree) (area : Path) (t : FileTree) : LoadPhase → Prop
  | .stageModule write => write.phase.Fits base area t
  | _ => True

theorem StagePhase.Allows.refl {base t : FileTree} {area : Path}
    (reached : t = base ∨ Settled base area t) : Allows base area t t :=
  ⟨reached, fun _ fits => fits⟩

theorem StagePhase.Allows.load {base t t' : FileTree} {area : Path}
    (allows : Allows base area t t') {phase : LoadPhase} (fits : phase.Fits base area t) :
    phase.Fits base area t' := by
  cases phase with
  | stageModule write => exact allows.keeps write.phase fits
  | checkScript _ | readScript _ | fetchScript _ | fetchModule _ | loadModule _ | finished => trivial

theorem LoadTask.Goes.allows {w w' : World} {phase phase' : LoadPhase}
    (goes : LoadTask.Goes w phase w' phase') (base : FileTree)
    (reached : w.tree = base ∨ Settled base w.staging.directory w.tree)
    (fits : phase.Fits base w.staging.directory w.tree) :
    StagePhase.Allows base w.staging.directory w.tree w'.tree ∧
      phase'.Fits base w.staging.directory w'.tree := by
  cases goes with
  | checks _ | fetches _ | staged _ => exact ⟨.refl reached, trivial⟩
  | stages goes => exact goes.allows reached fits

theorem LoadTask.Gives.tree {w w' : World} {phase : LoadPhase} {a : Payload}
    (gives : LoadTask.Gives w phase w' a) : w'.tree = w.tree := by
  cases gives <;> rfl

namespace Batch

/-- The state of a batch that was started in a world for certain candidates. -/
structure Holds (w : World) (candidates : List Candidate) (b : Batch) : Prop where
  follows : w.Follows b.world
  reached : b.world.tree = w.tree ∨ Settled w.tree w.staging.directory b.world.tree
  fits (i : Nat) (task : LoadTask) : b.tasks[i]? = some task →
    task.phase.Fits w.tree w.staging.directory b.world.tree
  serves (i : Nat) (task : LoadTask) : b.tasks[i]? = some task →
    ∃ c, candidates[i]? = some c ∧ task.phase.Serves b.world c

/-- How a batch changes in one turn. -/
structure Moves (w : World) (b m : Batch) : Prop where
  follows : b.world.Follows m.world
  allows : StagePhase.Allows w.tree w.staging.directory b.world.tree m.world.tree

theorem Moves.refl {w : World} {b : Batch}
    (reached : b.world.tree = w.tree ∨ Settled w.tree w.staging.directory b.world.tree) :
    Moves w b b :=
  ⟨.refl _, .refl reached⟩

theorem Moves.trans {w : World} {a b c : Batch} (first : Moves w a b) (second : Moves w b c) :
    Moves w a c :=
  ⟨first.follows.trans second.follows, second.allows.reaches,
    fun phase fits => second.allows.keeps phase (first.allows.keeps phase fits)⟩

theorem Holds.start (w : World) (resolved : List (Reference × Candidate)) :
    Holds w (resolved.map Prod.snd) ⟨w, resolved.map fun r => .ofCandidate r.1 r.2⟩ := by
  refine ⟨.refl w, Or.inl rfl, fun i task there => ?_, fun i task there => ?_⟩
  · dsimp only at there
    rw [List.getElem?_map] at there
    obtain ⟨r, _, rfl⟩ := Option.map_eq_some_iff.1 there
    obtain ⟨owner, kind, location⟩ := r
    cases kind <;> cases location <;> trivial
  · dsimp only at there
    rw [List.getElem?_map] at there
    obtain ⟨r, at_i, rfl⟩ := Option.map_eq_some_iff.1 there
    exact ⟨r.2, by rw [List.getElem?_map, at_i, Option.map_some], LoadPhase.serves_firstPhase w r.2⟩

/-- After a turn the task whose turn it was has come to a new phase, and the others stand as they
stood. -/
theorem task_after_turn {b m : Batch} {i j : Nat} {task other : LoadTask} {phase : LoadPhase}
    (tasks : m.tasks = b.tasks.set i { task with phase := phase })
    (there : m.tasks[j]? = some other) :
    (i = j ∧ other = { task with phase := phase }) ∨ b.tasks[j]? = some other := by
  rw [tasks, List.getElem?_set] at there
  split at there
  · next same =>
      split at there
      · cases there
        exact Or.inl ⟨same, rfl⟩
      · cases there
  · exact Or.inr there

theorem Holds.moves {w : World} {candidates : List Candidate} {b m : Batch} {i : Nat}
    {task : LoadTask} {phase : LoadPhase} (holds : Holds w candidates b)
    (there : b.tasks[i]? = some task)
    (acts : LoadTask.Goes b.world task.phase m.world phase ∨
      ∃ a, phase = .finished ∧ LoadTask.Gives b.world task.phase m.world a) :
    Moves w b m ∧ phase.Fits w.tree w.staging.directory m.world.tree := by
  have directory := holds.follows.directory
  cases acts with
  | inl goes =>
      have allows := goes.allows w.tree (directory ▸ holds.reached)
        (directory ▸ holds.fits i task there)
      rw [directory] at allows
      exact ⟨⟨goes.follows, allows.1⟩, allows.2⟩
  | inr gives =>
      obtain ⟨a, rfl, gives⟩ := gives
      refine ⟨⟨gives.follows, ?_⟩, trivial⟩
      rw [gives.tree]
      exact .refl holds.reached

/-- One turn, seen from the task whose turn it is and from the others. -/
theorem Holds.turn {w : World} {candidates : List Candidate} {b m : Batch} {i : Nat}
    {task : LoadTask} {phase : LoadPhase} (holds : Holds w candidates b)
    (there : b.tasks[i]? = some task)
    (tasks : m.tasks = b.tasks.set i { task with phase := phase })
    (acts : LoadTask.Goes b.world task.phase m.world phase ∨
      ∃ a, phase = .finished ∧ LoadTask.Gives b.world task.phase m.world a) :
    Holds w candidates m ∧ Moves w b m := by
  obtain ⟨moves, fits⟩ := holds.moves there acts
  have serves : ∀ c, task.phase.Serves b.world c → phase.Serves m.world c := by
    intro c serves
    cases acts with
    | inl goes => exact goes.serves serves
    | inr gives =>
        obtain ⟨_, rfl, _⟩ := gives
        trivial
  refine ⟨⟨holds.follows.trans moves.follows, moves.allows.reaches, ?_, ?_⟩, moves⟩
  · intro j other at_j
    cases task_after_turn tasks at_j with
    | inl its =>
        obtain ⟨rfl, rfl⟩ := its
        exact fits
    | inr others => exact moves.allows.load (holds.fits j other others)
  · intro j other at_j
    cases task_after_turn tasks at_j with
    | inl its =>
        obtain ⟨rfl, rfl⟩ := its
        obtain ⟨c, at_i, on_way⟩ := holds.serves i task there
        exact ⟨c, at_i, serves c on_way⟩
    | inr others =>
        obtain ⟨c, at_j', on_way⟩ := holds.serves j other others
        exact ⟨c, at_j', on_way.follows moves.follows⟩

/-- A run without a failure, from any point of a batch. -/
theorem Proceeds.holds {w : World} {candidates : List Candidate} {b b' : Batch}
    {turns : Turns} {values : List (Nat × Payload)} (proceeds : Proceeds b turns values b')
    (holds : Holds w candidates b) : Holds w candidates b' ∧ Moves w b b' := by
  apply proceeds.keeps (P := fun m => Holds w candidates m ∧ Moves w b m)
  · intro m m' i task phase kept there tasks acts
    obtain ⟨holds', moves⟩ := kept.1.turn there tasks acts
    exact ⟨holds', kept.2.trans moves⟩
  · exact ⟨holds, .refl holds.reached⟩

end Batch

end ScriptImports
