import ScriptImports.Loading

/-!
What one action of a task can do, as relations with a rule for each way it can turn out. An action of
`StagedWrite.step` or `LoadTask.step` is always an instance of one of the rules, so that whatever is
to be shown of all actions is shown rule by rule.
-/
namespace ScriptImports

open FileTree

namespace StagedWrite

/-- An action after which the staging goes on. -/
inductive Goes (s : Staging) : FileTree → StagedWrite → FileTree → StagedWrite → Prop
  | makes {t t' : FileTree} {url : String} {body : ByteArray} :
    t.makeDirectories s.directory = (t', .ok ()) →
      Goes s t ⟨url, body, .begun⟩ t' ⟨url, body, .directoryMade⟩
  | opens {t t' : FileTree} {url : String} {body : ByteArray} {temporary : Temporary} :
    t.makeTemporary s.directory = .ok (t', temporary) →
      Goes s t ⟨url, body, .directoryMade⟩ t' ⟨url, body, .opened temporary⟩
  | writes {t t' : FileTree} {url : String} {body : ByteArray} {temporary : Temporary} :
    t.fill temporary.place body = (t', .ok ()) →
      Goes s t ⟨url, body, .opened temporary⟩ t' ⟨url, body, .written temporary⟩
  | moves {t t' : FileTree} {url : String} {body : ByteArray} {temporary : Temporary} :
    t.moveFile temporary.path (s.target url) = .ok t' →
      Goes s t ⟨url, body, .written temporary⟩ t' ⟨url, body, .moved⟩

inductive Fails (s : Staging) : FileTree → StagedWrite → FileTree → Fault → Prop
  | unmade {t t' : FileTree} {url : String} {body : ByteArray} {fault : Fault} :
    t.makeDirectories s.directory = (t', .error fault) → Fails s t ⟨url, body, .begun⟩ t' fault
  | unopened {t : FileTree} {url : String} {body : ByteArray} {fault : Fault} :
    t.makeTemporary s.directory = .error fault → Fails s t ⟨url, body, .directoryMade⟩ t fault
  | unwritten {t t' : FileTree} {url : String} {body : ByteArray} {temporary : Temporary}
    {fault : Fault} : t.fill temporary.place body = (t', .error fault) →
      Fails s t ⟨url, body, .opened temporary⟩ (t'.unlink temporary.path) fault
  | unmoved {t : FileTree} {url : String} {body : ByteArray} {temporary : Temporary}
    {fault : Fault} : t.moveFile temporary.path (s.target url) = .error fault →
      Fails s t ⟨url, body, .written temporary⟩ (t.unlink temporary.path) fault

theorem step_cases (s : Staging) (t : FileTree) (w : StagedWrite) :
    (∃ t' w', w.step s t = (s, t', .next w') ∧ Goes s t w t' w') ∨
    (w.phase = .moved ∧ w.step s t = (s.record w.url, t, .ended (.ok (s.target w.url)))) ∨
    (∃ t' fault, w.step s t = (s, t', .ended (.error fault)) ∧ Fails s t w t' fault) := by
  obtain ⟨url, body, phase⟩ := w
  cases phase with
  | begun =>
      rw [step]
      dsimp only
      cases h : t.makeDirectories s.directory with
      | mk t' made =>
          cases made with
          | ok _ => exact Or.inl ⟨t', _, rfl, .makes h⟩
          | error fault => exact Or.inr (Or.inr ⟨t', fault, rfl, .unmade h⟩)
  | directoryMade =>
      rw [step]
      dsimp only
      cases h : t.makeTemporary s.directory with
      | ok made => exact Or.inl ⟨made.1, _, rfl, .opens h⟩
      | error fault => exact Or.inr (Or.inr ⟨t, fault, rfl, .unopened h⟩)
  | opened temporary =>
      rw [step]
      dsimp only
      cases h : t.fill temporary.place body with
      | mk t' filled =>
          cases filled with
          | ok _ =>
              rw [Staging.write_filled h]
              exact Or.inl ⟨t', _, rfl, .writes h⟩
          | error fault =>
              rw [Staging.write_broken h]
              exact Or.inr (Or.inr ⟨_, fault, rfl, .unwritten h⟩)
  | written temporary =>
      rw [step]
      dsimp only
      cases h : t.moveFile temporary.path (s.target url) with
      | ok moved =>
          rw [Staging.install_moved h]
          exact Or.inl ⟨moved, _, rfl, .moves h⟩
      | error fault =>
          rw [Staging.install_unmoved h]
          exact Or.inr (Or.inr ⟨_, fault, rfl, .unmoved h⟩)
  | moved => exact Or.inr (Or.inl ⟨rfl, rfl⟩)

/-- An action that nobody waits for is an action all the same, but for the first one, behind which
nothing comes. -/
theorem goOn_cases (s : Staging) (t : FileTree) (w : StagedWrite) :
    (w.phase = .begun ∧ w.goOn s t = ((t.makeDirectories s.directory).1, none)) ∨
    (∃ t' w', w.goOn s t = (t', some w') ∧ Goes s t w t' w') ∨
    (∃ t' fault, w.goOn s t = (t', none) ∧ Fails s t w t' fault) ∨
    (w.phase = .moved ∧ w.goOn s t = (t, none)) := by
  have inside (phase : w.phase ≠ .moved)
      (same : w.goOn s t = ((w.step s t).2.1, (w.step s t).2.2.write?)) :
      (∃ t' w', w.goOn s t = (t', some w') ∧ Goes s t w t' w') ∨
        ∃ t' fault, w.goOn s t = (t', none) ∧ Fails s t w t' fault := by
    obtain ⟨t', w', steps, goes⟩ | ⟨moved, _⟩ | ⟨t', fault, steps, fails⟩ := step_cases s t w
    · rw [steps] at same
      exact Or.inl ⟨t', w', same, goes⟩
    · exact absurd moved phase
    · rw [steps] at same
      exact Or.inr ⟨t', fault, same, fails⟩
  obtain ⟨url, body, phase⟩ := w
  cases phase with
  | begun => exact Or.inl ⟨rfl, rfl⟩
  | directoryMade | opened _ | written _ =>
      exact Or.inr ((inside StagePhase.noConfusion rfl).imp_right Or.inl)
  | moved => exact Or.inr (Or.inr (Or.inr ⟨rfl, rfl⟩))

theorem Goes.same {s : Staging} {t t' : FileTree} {w w' : StagedWrite} (goes : w.Goes s t t' w') :
    w'.url = w.url ∧ w'.body = w.body := by
  cases goes <;> exact ⟨rfl, rfl⟩

theorem Goes.step {s : Staging} {t t' : FileTree} {w w' : StagedWrite} (goes : w.Goes s t t' w') :
    w.step s t = (s, t', .next w') := by
  cases goes with
  | makes made =>
      unfold StagedWrite.step
      dsimp only
      rw [made]
  | opens opened =>
      unfold StagedWrite.step
      dsimp only
      rw [opened]
  | writes filled =>
      unfold StagedWrite.step
      dsimp only
      rw [Staging.write_filled filled]
  | moves moved =>
      unfold StagedWrite.step
      dsimp only
      rw [Staging.install_moved moved]

theorem Fails.step {s : Staging} {t t' : FileTree} {w : StagedWrite} {fault : Fault}
    (fails : w.Fails s t t' fault) : w.step s t = (s, t', .ended (.error fault)) := by
  cases fails with
  | unmade made =>
      unfold StagedWrite.step
      dsimp only
      rw [made]
  | unopened opened =>
      unfold StagedWrite.step
      dsimp only
      rw [opened]
  | unwritten broken =>
      unfold StagedWrite.step
      dsimp only
      rw [Staging.write_broken broken]
  | unmoved moved =>
      unfold StagedWrite.step
      dsimp only
      rw [Staging.install_unmoved moved]

end StagedWrite

/-- A staging at one go that succeeds has done all of its actions. -/
theorem Staging.stage_eq_ok {s s' : Staging} {t t' : FileTree} {url : String} {body : ByteArray}
    {path : Path} (h : s.stage t url body = (s', t', .ok path)) :
    s' = s.record url ∧ path = s.target url ∧
      ∃ made opened filled temporary, t.makeDirectories s.directory = (made, .ok ()) ∧
        made.makeTemporary s.directory = .ok (opened, temporary) ∧
        opened.fill temporary.place body = (filled, .ok ()) ∧
        filled.moveFile temporary.path (s.target url) = .ok t' := by
  rw [stage] at h
  split at h
  · cases h
  next made makes =>
  split at h
  · cases h
  next opened temporary opens =>
  cases writes : opened.fill temporary.place body with
  | mk filled result =>
      cases result with
      | error fault =>
          rw [write_broken writes] at h
          cases h
      | ok _ =>
          rw [write_filled writes] at h
          dsimp only at h
          cases moves : filled.moveFile temporary.path (s.target url) with
          | ok moved =>
              rw [install_moved moves] at h
              cases h
              exact ⟨rfl, rfl, made, opened, filled, temporary, makes, opens, writes, moves⟩
          | error fault =>
              rw [install_unmoved moves] at h
              cases h

namespace World

def fetch (w : World) (url : String) : World := { w with network := (w.network.fetch url).1 }

end World

/-- The staging that a task is at. -/
def LoadPhase.write? : LoadPhase → Option StagedWrite
  | .stageModule write => some write
  | .checkScript _ | .readScript _ | .fetchScript _ | .fetchModule _ | .loadModule _ | .finished =>
    none

namespace LoadTask

/-- An action after which the task goes on. -/
inductive Goes : World → LoadPhase → World → LoadPhase → Prop
  | checks {w : World} {p : Path} :
    w.tree.isFile p = true → Goes w (.checkScript p) w (.readScript p)
  | fetches {w : World} {url : String} {body : ByteArray} :
    w.network.reply url = .body body →
      Goes w (.fetchModule url) (w.fetch url) (.stageModule ⟨url, body, .begun⟩)
  | stages {w : World} {t' : FileTree} {write write' : StagedWrite} :
    write.Goes w.staging w.tree t' write' →
      Goes w (.stageModule write) { w with tree := t' } (.stageModule write')
  | staged {w : World} {write : StagedWrite} :
    write.phase = .moved →
      Goes w (.stageModule write) { w with staging := w.staging.record write.url }
        (.loadModule (w.staging.target write.url))

inductive Gives : World → LoadPhase → World → Payload → Prop
  | reads {w : World} {p : Path} {text : String} :
    w.tree.readText p = .ok text → Gives w (.readScript p) w (.script text)
  | fetches {w : World} {url text : String} {body : ByteArray} :
    w.network.reply url = .body body → w.network.text body = .ok text →
      Gives w (.fetchScript url) (w.fetch url) (.script text)
  | loads {w : World} {p : Path} {factory : Factory} :
    w.registry.load w.tree p = .ok factory → Gives w (.loadModule p) w (.native factory)

/-- An action that the task fails in, or breaks down in. -/
inductive Fails : World → LoadPhase → World → FailureCause → Prop
  | absent {w : World} {p : Path} :
    w.tree.isFile p = false → Fails w (.checkScript p) w (.read p "file does not exist")
  | unreadable {w : World} {p : Path} {fault : Fault} :
    w.tree.readText p = .error fault → Fails w (.readScript p) w (.read p fault.message)
  | refused {w : World} {phase : LoadPhase} {url reason : String} {status : Option Nat} :
    phase = .fetchScript url ∨ phase = .fetchModule url →
      w.network.reply url = .refused status reason →
        Fails w phase (w.fetch url) (.fetch url status reason)
  | crashed {w : World} {phase : LoadPhase} {url detail : String} :
    phase = .fetchScript url ∨ phase = .fetchModule url →
      w.network.reply url = .crash detail → Fails w phase (w.fetch url) (.aborted detail)
  | garbled {w : World} {url reason : String} {body : ByteArray} :
    w.network.reply url = .body body → w.network.text body = .error reason →
      Fails w (.fetchScript url) (w.fetch url) (.fetch url none reason)
  | unstaged {w : World} {t' : FileTree} {write : StagedWrite} {fault : Fault} :
    write.Fails w.staging w.tree t' fault →
      Fails w (.stageModule write) { w with tree := t' }
        (.staging write.url (w.staging.target write.url) fault)
  | unloaded {w : World} {p : Path} {fault : CodeFault} :
    w.registry.load w.tree p = .error fault → Fails w (.loadModule p) w (.code p fault)

/-- How a task ends that fails: with a failure of its own, or by breaking down. -/
def Ends (owner : Reference) (cause : FailureCause) (outcome : Outcome Payload) : Prop :=
  outcome = .failure (owner.failure cause) ∨
    ∃ detail, cause = .aborted detail ∧ outcome = .crash detail

theorem step_fetchScript (w : World) (owner : Reference) (url : String) :
    step w ⟨owner, .fetchScript url⟩ = (w.fetch url,
      onReply ⟨owner, .fetchScript url⟩ url (w.network.reply url)
        fun body =>
          match w.network.text body with
          | .ok text => .ended (.value (.script text))
          | .error reason => fail ⟨owner, .fetchScript url⟩ (.fetch url none reason)) := rfl

theorem step_fetchModule (w : World) (owner : Reference) (url : String) :
    step w ⟨owner, .fetchModule url⟩ = (w.fetch url,
      onReply ⟨owner, .fetchModule url⟩ url (w.network.reply url)
        fun body => .next (.stageModule ⟨url, body, .begun⟩)) := rfl

theorem step_cases (w : World) (t : LoadTask) :
    (∃ w' phase, t.step w = (w', .next phase) ∧ Goes w t.phase w' phase) ∨
    (∃ w' a, t.step w = (w', .ended (.value a)) ∧ Gives w t.phase w' a) ∨
    (∃ w' outcome cause, t.step w = (w', .ended outcome) ∧ Fails w t.phase w' cause ∧
      Ends t.owner cause outcome) ∨
    (t.phase = .finished ∧ t.step w = (w, .next .finished)) := by
  obtain ⟨owner, phase⟩ := t
  cases phase with
  | checkScript p =>
      rw [step]
      dsimp only
      cases h : w.tree.isFile p with
      | true => exact Or.inl ⟨w, _, rfl, .checks h⟩
      | false => exact Or.inr (Or.inr (Or.inl ⟨w, _, _, rfl, .absent h, Or.inl rfl⟩))
  | readScript p =>
      rw [step]
      dsimp only
      cases h : w.tree.readText p with
      | ok text => exact Or.inr (Or.inl ⟨w, _, rfl, .reads h⟩)
      | error fault => exact Or.inr (Or.inr (Or.inl ⟨w, _, _, rfl, .unreadable h, Or.inl rfl⟩))
  | fetchScript url =>
      rw [step_fetchScript]
      cases h : w.network.reply url with
      | body body =>
          dsimp only [onReply]
          cases read : w.network.text body with
          | ok text => exact Or.inr (Or.inl ⟨_, _, rfl, .fetches h read⟩)
          | error reason =>
              exact Or.inr (Or.inr (Or.inl ⟨_, _, _, rfl, .garbled h read, Or.inl rfl⟩))
      | refused status reason =>
          exact Or.inr (Or.inr (Or.inl ⟨_, _, _, rfl, .refused (Or.inl rfl) h, Or.inl rfl⟩))
      | crash detail =>
          exact Or.inr (Or.inr (Or.inl ⟨_, _, _, rfl, .crashed (Or.inl rfl) h,
            Or.inr ⟨detail, rfl, rfl⟩⟩))
  | fetchModule url =>
      rw [step_fetchModule]
      cases h : w.network.reply url with
      | body _ => exact Or.inl ⟨_, _, rfl, .fetches h⟩
      | refused status reason =>
          exact Or.inr (Or.inr (Or.inl ⟨_, _, _, rfl, .refused (Or.inr rfl) h, Or.inl rfl⟩))
      | crash detail =>
          exact Or.inr (Or.inr (Or.inl ⟨_, _, _, rfl, .crashed (Or.inr rfl) h,
            Or.inr ⟨detail, rfl, rfl⟩⟩))
  | stageModule write =>
      rw [step]
      dsimp only
      obtain ⟨t', write', steps, goes⟩ | ⟨moved, steps⟩ | ⟨t', fault, steps, fails⟩ :=
        StagedWrite.step_cases w.staging w.tree write
      · rw [steps]
        exact Or.inl ⟨_, _, rfl, .stages goes⟩
      · rw [steps]
        exact Or.inl ⟨_, _, rfl, .staged moved⟩
      · rw [steps]
        exact Or.inr (Or.inr (Or.inl ⟨_, _, _, rfl, .unstaged fails, Or.inl rfl⟩))
  | loadModule p =>
      rw [step]
      dsimp only
      cases h : w.registry.load w.tree p with
      | ok factory => exact Or.inr (Or.inl ⟨w, _, rfl, .loads h⟩)
      | error fault => exact Or.inr (Or.inr (Or.inl ⟨w, _, _, rfl, .unloaded h, Or.inl rfl⟩))
  | finished => exact Or.inr (Or.inr (Or.inr ⟨rfl, rfl⟩))

theorem Goes.step {w w' : World} {t : LoadTask} {phase : LoadPhase}
    (goes : Goes w t.phase w' phase) : t.step w = (w', .next phase) := by
  obtain ⟨owner, before⟩ := t
  cases goes with
  | checks file =>
      unfold LoadTask.step
      dsimp only
      rw [if_pos file]
  | fetches reply =>
      rw [step_fetchModule, reply]
      rfl
  | stages goes =>
      unfold LoadTask.step
      dsimp only
      rw [goes.step]
  | @staged write moved =>
      obtain ⟨url, body, _⟩ := write
      cases moved
      rfl

theorem Gives.step {w w' : World} {t : LoadTask} {a : Payload} (gives : Gives w t.phase w' a) :
    t.step w = (w', .ended (.value a)) := by
  obtain ⟨owner, phase⟩ := t
  cases gives with
  | reads read =>
      unfold LoadTask.step
      dsimp only
      rw [read]
  | fetches reply read =>
      rw [step_fetchScript, reply]
      dsimp only [onReply]
      rw [read]
  | loads loaded =>
      unfold LoadTask.step
      dsimp only
      rw [loaded]

theorem Fails.step {w w' : World} {t : LoadTask} {cause : FailureCause}
    (fails : Fails w t.phase w' cause) :
    ∃ outcome, t.step w = (w', .ended outcome) ∧ Ends t.owner cause outcome := by
  obtain ⟨owner, phase⟩ := t
  cases fails with
  | absent missing =>
      refine ⟨_, ?_, Or.inl rfl⟩
      unfold LoadTask.step
      dsimp only
      rw [missing]
      rfl
  | unreadable unread =>
      refine ⟨_, ?_, Or.inl rfl⟩
      unfold LoadTask.step
      dsimp only
      rw [unread]
      rfl
  | refused fetch reply =>
      refine ⟨_, ?_, Or.inl rfl⟩
      obtain rfl | rfl := fetch
      · rw [step_fetchScript, reply]
        rfl
      · rw [step_fetchModule, reply]
        rfl
  | crashed fetch reply =>
      refine ⟨_, ?_, Or.inr ⟨_, rfl, rfl⟩⟩
      obtain rfl | rfl := fetch
      · rw [step_fetchScript, reply]
        rfl
      · rw [step_fetchModule, reply]
        rfl
  | garbled reply unread =>
      refine ⟨_, ?_, Or.inl rfl⟩
      rw [step_fetchScript, reply]
      dsimp only [onReply]
      rw [unread]
      rfl
  | unstaged staging =>
      refine ⟨_, ?_, Or.inl rfl⟩
      unfold LoadTask.step
      dsimp only
      rw [staging.step]
      rfl
  | unloaded load =>
      refine ⟨_, ?_, Or.inl rfl⟩
      unfold LoadTask.step
      dsimp only
      rw [load]
      rfl

/-! A task that nobody waits for goes on with the staging that it is at. -/

theorem of_write?_eq_some {t : LoadTask} {write : StagedWrite} (h : t.phase.write? = some write) :
    ∃ owner, t = ⟨owner, .stageModule write⟩ := by
  obtain ⟨owner, phase⟩ := t
  cases phase with
  | stageModule _ =>
      cases h
      exact ⟨owner, rfl⟩
  | checkScript _ | readScript _ | fetchScript _ | fetchModule _ | loadModule _ | finished => cases h

theorem goOn_idle (w : World) {t : LoadTask} (idle : t.phase.write? = none) :
    t.goOn w = (w, { t with phase := .finished }) := by
  rw [goOn]
  split
  · next staging =>
      rw [staging] at idle
      cases idle
  · rfl

theorem goOn_staging (w : World) (owner : Reference) (write : StagedWrite) :
    goOn w ⟨owner, .stageModule write⟩ =
      ({ w with tree := (write.goOn w.staging w.tree).1 },
        ⟨owner, ((write.goOn w.staging w.tree).2.map .stageModule).getD .finished⟩) := by
  rw [goOn]
  dsimp only
  generalize write.goOn w.staging w.tree = after
  obtain ⟨tree, next⟩ := after
  cases next <;> rfl

theorem write?_goOn (w : World) (owner : Reference) (write : StagedWrite) :
    (goOn w ⟨owner, .stageModule write⟩).2.phase.write? = (write.goOn w.staging w.tree).2 := by
  rw [goOn_staging]
  cases (write.goOn w.staging w.tree).2 <;> rfl

end LoadTask

end ScriptImports
