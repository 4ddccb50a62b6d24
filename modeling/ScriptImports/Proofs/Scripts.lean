import ScriptImports.Proofs.Delivery
import ScriptImports.Proofs.Failing
import ScriptImports.Proofs.Footprint
import ScriptImports.Proofs.Verification

/-!
Programs that import scripts only. To load them changes nothing on the disk, so that each script is
what it would be alone: however the tasks take turns, all of them load if each can be read where it
is. Where no native module is registered, no other program loads.
-/
namespace ScriptImports

/-- The text of the script at a location. -/
inductive World.HasScript (w : World) : Location → String → Prop
  | file {p : Path} {text : String} : w.tree.readText p = .ok text → HasScript w (.path p) text
  | reply {url text : String} {body : ByteArray} : w.network.reply url = .body body →
    w.network.text body = .ok text → HasScript w (.url url) text

/-- A world that goes on and leaves the disk as it is has the same scripts. -/
theorem World.Follows.hasScript_iff {w m : World} (follows : w.Follows m) (tree : m.tree = w.tree)
    {location : Location} {text : String} :
    m.HasScript location text ↔ w.HasScript location text := by
  constructor
  · intro has
    cases has with
    | file readable => exact .file (tree ▸ readable)
    | reply body read => exact .reply (follows.reply _ ▸ body) (follows.text ▸ read)
  · intro has
    cases has with
    | file readable => exact .file (tree.symm ▸ readable)
    | reply body read => exact .reply ((follows.reply _).trans body) (follows.text.symm ▸ read)

/-! One task. -/

theorem LoadTask.Gives.hasScript {m m' : World} {phase : LoadPhase} {c : Candidate} {a : Payload}
    (gives : LoadTask.Gives m phase m' a) (serves : phase.Serves m c) (script : c.kind = .script) :
    ∃ text, a = .script text ∧ m.HasScript c.location text := by
  cases gives with
  | reads readable =>
      cases serves
      exact ⟨_, rfl, .file readable⟩
  | fetches body read =>
      cases serves
      exact ⟨_, rfl, .reply body read⟩
  | loads _ =>
      obtain native | ⟨_, _, native, _⟩ := serves <;>
        · rw [native] at script
          cases script

/-- What keeps a script from being loaded is that it has no text. -/
theorem Candidate.FailsWith.not_hasScript {m : World} {c : Candidate} {cause : FailureCause}
    (fails : c.FailsWith m cause) (script : c.kind = .script) (text : String) :
    ¬ m.HasScript c.location text := by
  intro has
  cases fails with
  | absent missing =>
      cases has with
      | file readable =>
          rw [FileTree.isFile_of_readText readable] at missing
          cases missing
  | unreadable unread =>
      cases has with
      | file readable =>
          rw [unread] at readable
          cases readable
  | refused refusal =>
      cases has with
      | reply body _ =>
          rw [refusal] at body
          cases body
  | crashed crash =>
      cases has with
      | reply body _ =>
          rw [crash] at body
          cases body
  | garbled reply unread =>
      cases has with
      | reply body read =>
          rw [reply] at body
          cases body
          rw [unread] at read
          cases read
  | unstaged _ _ | unloaded _ | unloadedStaged _ _ _ => cases script

/-! A batch of them. -/

section

variable {w w' : World} {schedule : Schedule} {resolved : List (Reference × Candidate)}
  {deps : Dependencies}

/-- At every moment of a batch of scripts the disk and the network are as they were at its start. -/
theorem Batch.Proceeds.unchanged {turns : Turns} {values : List (Nat × Payload)} {m : Batch}
    (proceeds : Proceeds (w.batch resolved) turns values m)
    (scripts : ∀ r ∈ resolved, r.2.kind = .script) :
    m.world.tree = w.tree ∧ w.Follows m.world := by
  obtain ⟨holds, confined⟩ := proceeds.confined (.start w resolved) (Batch.confined_start w resolved)
  refine ⟨confined.untouched.resolve_right ?_, holds.follows⟩
  rintro ⟨download, native, _⟩
  obtain ⟨r, hr, same⟩ := List.mem_map.1 native
  have kind := scripts r hr
  rw [same] at kind
  cases kind

theorem World.loadBatch_of_hasScript (scripts : ∀ r ∈ resolved, r.2.kind = .script)
    (texts : ∀ r ∈ resolved, ∃ text, w.HasScript r.2.location text) (schedule : Schedule) :
    ∃ w' deps, w.loadBatch schedule resolved = (w', .ok deps) := by
  cases loaded : w.loadBatch schedule resolved with
  | mk w' result =>
      cases result with
      | ok deps => exact ⟨w', deps, rfl⟩
      | error f =>
          obtain ⟨r, hr, cause, ⟨i, m, task, w'', _, stops, fails⟩, _⟩ := loadBatch_fails loaded
          obtain ⟨_, proceeds, _, _⟩ := stops
          obtain ⟨tree, follows⟩ := proceeds.unchanged scripts
          obtain ⟨text, has⟩ := texts r hr
          exact absurd ((follows.hasScript_iff tree).2 has)
            (fails.not_hasScript (scripts r hr) text)

theorem World.hasScript_of_loadBatch (scripts : ∀ r ∈ resolved, r.2.kind = .script)
    (h : w.loadBatch schedule resolved = (w', .ok deps)) :
    ∀ d ∈ deps, ∃ text, d.payload = .script text ∧ w.HasScript d.candidate.location text := by
  obtain ⟨_, turns, values, b', proceeds, rfl, each⟩ := loadBatch_eq_ok h
  intro d hd
  obtain ⟨i, at_i, given⟩ := each d hd
  obtain ⟨before, after, _, _, m, m', task, first, there, gives, _⟩ := proceeds.given given
  obtain ⟨r, at_i', _, serves⟩ := serves_of_proceeds first there
  rw [at_i] at at_i'
  cases at_i'
  obtain ⟨text, payload, has⟩ := gives.hasScript serves (scripts _ (List.mem_of_getElem? at_i))
  obtain ⟨tree, follows⟩ := first.unchanged scripts
  exact ⟨text, payload, (follows.hasScript_iff tree).1 has⟩

end

/-! Programs where no native module is registered. -/

theorem Registry.lookup_empty (fileName : String) : Registry.empty.lookup fileName = none := by
  rw [lookup]
  dsimp only [empty, List.lookup]
  split <;> rfl

theorem Dependency.Delivered.script {w w' : World} {d : Dependency} (delivered : d.Delivered w w')
    (unregistered : w.registry = .empty) : d.candidate.kind = .script := by
  obtain ⟨_, ⟨kind, location⟩, payload⟩ := d
  cases kind with
  | script => rfl
  | native =>
      cases location <;> cases payload <;>
        simp [Delivered, unregistered, Registry.lookup_empty] at delivered

/-- A reference to a script, the place that it resolves to, and the text that is there. -/
structure World.LoadsScript (w : World) (s : Settings) (r : Reference) (location : Location)
    (text : String) : Prop where
  resolves : ∃ trace, Resolution.resolve s w.tree r = .ok ⟨⟨.script, location⟩, trace⟩
  hasScript : w.HasScript location text

namespace World

variable {w w' : World} {s : Settings} {schedule : Schedule} {references : List Reference}
  {deps : Dependencies}

theorem LoadsScript.kind {r : Reference} {location : Location} {text : String}
    (loads : w.LoadsScript s r location text) :
    Name.kind s.nativeExtensions s.scriptExtensions r.name = .script := by
  obtain ⟨_, resolves⟩ := loads.resolves
  exact Resolution.kind_of_resolve resolves

/-- What a program loads where no native module is registered: for each statement the text of the
script that it stands for. -/
theorem loadReferences_scripts (unregistered : w.registry = .empty)
    (h : w.loadReferences s schedule references = (w', .ok deps)) :
    deps.map Dependency.reference = references ∧
      ∀ d ∈ deps, ∃ text, d.payload = .script text ∧
        w.LoadsScript s d.reference d.candidate.location text := by
  obtain ⟨order, each⟩ := loadReferences_loads h
  obtain ⟨resolved, _, loaded⟩ := loadReferences_eq_ok h
  refine ⟨order, fun d hd => ?_⟩
  have scripts : ∀ e ∈ deps, e.candidate.kind = .script :=
    fun e he => (each e he).1.script unregistered
  have pairs := (loadBatch_eq_ok loaded).1
  obtain ⟨text, payload, has⟩ := hasScript_of_loadBatch (by
    rw [← pairs]
    intro r hr
    obtain ⟨e, he, rfl⟩ := List.mem_map.1 hr
    exact scripts e he) loaded d hd
  obtain ⟨_, trace, resolves⟩ := each d hd
  refine ⟨text, payload, ⟨⟨trace, ?_⟩, has⟩⟩
  rw [resolves, ← scripts d hd]

/-- Scripts that can be read where they are load together, whatever the order of their tasks. -/
theorem loadReferences_of_loadsScript
    (all : ∀ r ∈ references, ∃ location text, w.LoadsScript s r location text)
    (schedule : Schedule) : ∃ w' deps, w.loadReferences s schedule references = (w', .ok deps) := by
  rw [loadReferences]
  cases found : Resolution.resolveAll s w.tree references with
  | error f =>
      obtain ⟨before, r, after, rfl, _, fails⟩ := Resolution.resolveAll_eq_error found
      obtain ⟨_, _, ⟨_, resolves⟩, _⟩ := all r (by simp)
      rw [fails] at resolves
      cases resolves
  | ok resolved =>
      obtain ⟨order, each⟩ := Resolution.resolveAll_candidates found
      dsimp only
      generalize resolved.map (fun r => (r.1, r.2.candidate)) = candidates at order each ⊢
      have ready : ∀ r ∈ candidates, r.2.kind = .script ∧ ∃ text, w.HasScript r.2.location text := by
        intro r hr
        obtain ⟨location, text, ⟨_, resolves⟩, has⟩ :=
          all r.1 (by rw [← order]; exact List.mem_map_of_mem hr)
        obtain ⟨_, resolves'⟩ := each r hr
        rw [resolves, Except.ok.injEq, Resolution.mk.injEq] at resolves'
        rw [← resolves'.1]
        exact ⟨rfl, text, has⟩
      exact loadBatch_of_hasScript (fun r hr => (ready r hr).1) (fun r hr => (ready r hr).2) schedule

end World

end ScriptImports
