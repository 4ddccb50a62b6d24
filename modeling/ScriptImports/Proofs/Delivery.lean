import ScriptImports.Proofs.Imports

/-!
What a program gets when all its imports load. Each reference gets the payload of the candidate that
it alone was resolved to, and the payload is what the location of the candidate has: the text of a
file or the body of a reply for a script, and a factory from the file or the staged file for a native
module.
-/
namespace ScriptImports

open FileTree

/-- The payload comes from the candidate's location, for a load that started in `w` and ended in `w'`.
Of a script inside the staging area nothing is said, since a staged file may have replaced it. -/
def Dependency.Delivered (w w' : World) (d : Dependency) : Prop :=
  match d.candidate.kind, d.candidate.location, d.payload with
  | .script, .path p, .script text =>
    ¬ (w.tree.makeDirectories w.staging.directory).1.LiesIn p w.staging.directory →
      w'.tree.isFile p = true ∧ w'.tree.readText p = .ok text ∧
        (w.tree.isFile p = true → w.tree.readText p = .ok text)
  | .script, .url u, .script text =>
    ∃ body, w.network.reply u = .body body ∧ w.network.text body = .ok text
  | .native, .path p, .native factory =>
    factory.source = p ∧
      w.registry.lookup (PathText.shown (p.fileName?.getD [])) = some factory.exports
  | .native, .url u, .native factory =>
    factory.source = w.staging.target u ∧ w'.staging.get? u = some (w.staging.target u) ∧
      (∃ body, w.network.reply u = .body body) ∧
      w.registry.lookup (PathText.shown ((w.staging.target u).fileName?.getD [])) =
        some factory.exports
  | _, _, _ => False

theorem Dependency.Delivered.kind {w w' : World} {d : Dependency} (delivered : d.Delivered w w') :
    d.payload.kind = d.candidate.kind := by
  obtain ⟨_, ⟨kind, location⟩, payload⟩ := d
  cases kind <;> cases location <;> cases payload <;> first | rfl | exact delivered.elim

theorem Registry.load_eq_ok {r : Registry} {tree : FileTree} {p : Path} {factory : Factory}
    (h : r.load tree p = .ok factory) :
    factory.source = p ∧ r.lookup (PathText.shown (p.fileName?.getD [])) = some factory.exports := by
  rw [load] at h
  split at h
  · cases h
  · dsimp only at h
    split at h
    · next exports known =>
        cases h
        exact ⟨rfl, known⟩
    · cases h
  · cases h

/-- What a task gives at one moment of a batch is still delivered when the batch is over. -/
theorem LoadTask.Gives.delivered {w m m' w' : World} {phase : LoadPhase} {r : Reference}
    {c : Candidate} {a : Payload} (gives : LoadTask.Gives m phase m' a) (serves : phase.Serves m c)
    (before : w.Follows m) (after : m.Follows w')
    (reached : m.tree = w.tree ∨ Settled w.tree w.staging.directory m.tree)
    (allows : StagePhase.Allows w.tree w.staging.directory m.tree w'.tree) :
    Dependency.Delivered w w' ⟨r, c, a⟩ := by
  cases gives with
  | reads text =>
      cases serves
      intro apart
      obtain ⟨now, first⟩ := readText_stays reached allows.reaches
        (allows.keeps .directoryMade) apart text
      exact ⟨isFile_of_readText now, now, first⟩
  | fetches reply read =>
      cases serves
      rw [before.reply] at reply
      rw [before.text] at read
      exact ⟨_, reply, read⟩
  | loads loaded =>
      obtain ⟨source, exports⟩ := Registry.load_eq_ok loaded
      rw [before.registry] at exports
      cases serves with
      | inl local_ =>
          cases local_
          exact ⟨source, exports⟩
      | inr remote =>
          obtain ⟨url, body, rfl, rfl, entry, reply⟩ := remote
          have entry' := after.entry_target entry
          rw [Staging.target_congr after.directory, Staging.target_congr before.directory] at entry'
          rw [Staging.target_congr before.directory] at source exports
          exact ⟨source, entry', ⟨body, (before.reply url).symm.trans reply⟩, exports⟩

theorem Batch.Proceeds.delivered {w : World} {resolved : List (Reference × Candidate)}
    {turns : Turns} {values : List (Nat × Payload)} {b' : Batch}
    (proceeds : Proceeds (w.batch resolved) turns values b') {i : Nat} {r : Reference}
    {c : Candidate} {a : Payload} (at_i : resolved[i]? = some (r, c)) (h : (i, a) ∈ values) :
    Dependency.Delivered w b'.world ⟨r, c, a⟩ := by
  obtain ⟨before, after, _, _, m, m', task, first, there, gives, tasks, last⟩ := proceeds.given h
  obtain ⟨holds, _⟩ := first.holds (.start w resolved)
  obtain ⟨holds', moves⟩ := holds.turn there tasks (Or.inr ⟨a, rfl, gives⟩)
  obtain ⟨_, later⟩ := last.holds holds'
  obtain ⟨r', at_i', _, serves⟩ := World.serves_of_proceeds first there
  rw [at_i] at at_i'
  cases at_i'
  exact gives.delivered serves holds.follows (moves.trans later).follows holds.reached
    (moves.trans later).allows

namespace Dependencies

/-- What is picked out by the kind of the payload is what the kind of the candidate selects. -/
theorem pick_eq {β : Type} {kind : ModuleKind} {deps : Dependencies}
    (pick : Dependency → Option (Location × β)) (payload : β → Payload)
    (picks : ∀ d, (pick d).map (fun x => (x.1, payload x.2)) =
      if d.payload.kind = kind then some (d.candidate.location, d.payload) else none)
    (kinds : ∀ d ∈ deps, d.payload.kind = d.candidate.kind) :
    (deps.filterMap pick).map (fun x => (x.1, payload x.2)) =
      (deps.filter fun d => d.candidate.kind = kind).map
        fun d => (d.candidate.location, d.payload) := by
  induction deps with
  | nil => rfl
  | cons d deps ih =>
      have more := ih fun e he => kinds e (List.mem_cons_of_mem d he)
      have first := picks d
      rw [kinds d List.mem_cons_self] at first
      by_cases same : d.candidate.kind = kind
      · rw [if_pos same] at first
        obtain ⟨x, picked, pair⟩ := Option.map_eq_some_iff.1 first
        rw [List.filterMap_cons_some picked, List.filter_cons_of_pos (by simpa using same),
          List.map_cons, List.map_cons, more, pair]
      · rw [if_neg same, Option.map_eq_none_iff] at first
        rw [List.filterMap_cons_none first, List.filter_cons_of_neg (by simpa using same), more]

theorem scripts_eq {deps : Dependencies} (kinds : ∀ d ∈ deps, d.payload.kind = d.candidate.kind) :
    deps.scripts.map (fun x => (x.1, Payload.script x.2)) =
      (deps.filter fun d => d.candidate.kind = .script).map
        fun d => (d.candidate.location, d.payload) := by
  apply pick_eq _ Payload.script _ kinds
  intro d
  cases payload : d.payload <;> simp [Payload.kind]

theorem natives_eq {deps : Dependencies} (kinds : ∀ d ∈ deps, d.payload.kind = d.candidate.kind) :
    deps.natives.map (fun x => (x.1, Payload.native x.2)) =
      (deps.filter fun d => d.candidate.kind = .native).map
        fun d => (d.candidate.location, d.payload) := by
  apply pick_eq _ Payload.native _ kinds
  intro d
  cases payload : d.payload <;> simp [Payload.kind]

end Dependencies

theorem World.loadBatch_delivers {w w' : World} {schedule : Schedule}
    {resolved : List (Reference × Candidate)} {deps : Dependencies}
    (h : w.loadBatch schedule resolved = (w', .ok deps)) : ∀ d ∈ deps, d.Delivered w w' := by
  obtain ⟨_, turns, values, b', proceeds, rfl, each⟩ := loadBatch_eq_ok h
  intro d hd
  obtain ⟨i, at_i, given⟩ := each d hd
  exact proceeds.delivered at_i given

/-- All references of a program are resolved, and what they stand for is delivered. -/
def World.Loads (w w' : World) (s : Settings) (references : List Reference) (deps : Dependencies) :
    Prop :=
  deps.map Dependency.reference = references ∧
    ∀ d ∈ deps, d.Delivered w w' ∧
      ∃ trace, Resolution.resolve s w.tree d.reference = .ok ⟨d.candidate, trace⟩

theorem World.loadReferences_loads {w w' : World} {s : Settings} {schedule : Schedule}
    {references : List Reference} {deps : Dependencies}
    (h : w.loadReferences s schedule references = (w', .ok deps)) :
    w.Loads w' s references deps := by
  obtain ⟨resolved, all, loaded⟩ := loadReferences_eq_ok h
  obtain ⟨order, each⟩ := Resolution.resolveAll_candidates all
  have pairs := (loadBatch_eq_ok loaded).1
  constructor
  · rw [← order, ← pairs, List.map_map]
    rfl
  · intro d hd
    refine ⟨loadBatch_delivers loaded d hd, each (d.reference, d.candidate) ?_⟩
    rw [← pairs]
    exact List.mem_map_of_mem hd

/-- A load that succeeds, under whatever schedule, gives one dependency for each statement of the
text, in their order: its reference, the candidate that this reference resolves to, and what that
candidate's location has. Scripts and native modules are these dependencies by kind, in their order. -/
theorem World.loadSource_delivers {w w' : World} {s : Settings} {schedule : Schedule}
    {code : String} {file : Option Path} {deps : Dependencies}
    (h : w.loadSource s schedule code file = (w', .ok deps)) :
    deps.map Dependency.reference = Statement.scan code file ∧
    (∀ d ∈ deps, d.Delivered w w' ∧
      ∃ trace, Resolution.resolve s w.tree d.reference = .ok ⟨d.candidate, trace⟩) ∧
    deps.scripts.map (fun x => (x.1, Payload.script x.2)) =
      (deps.filter fun d => d.candidate.kind = .script).map
        (fun d => (d.candidate.location, d.payload)) ∧
    deps.natives.map (fun x => (x.1, Payload.native x.2)) =
      (deps.filter fun d => d.candidate.kind = .native).map
        (fun d => (d.candidate.location, d.payload)) := by
  obtain ⟨references, each⟩ := loadReferences_loads h
  have kinds : ∀ d ∈ deps, d.payload.kind = d.candidate.kind := fun d hd => (each d hd).1.kind
  exact ⟨references, each, Dependencies.scripts_eq kinds, Dependencies.natives_eq kinds⟩

/-- A script that is on the disk, and a native module that has to be staged. -/
def twoImports : String := "!「/lib/a.nako3」を取り込む\n!「https://example.com/b.js」を取り込む"

def supplied : World where
  tree := FileTree.empty.write (Path.ofString "/lib/a.nako3") (.file "1を表示".toUTF8)
  staging := ⟨Path.ofString "/stage", []⟩
  network := Network.empty.set "https://example.com/b.js" (.body "b".toUTF8)
  registry := Registry.empty.register "b.js" ⟨"b", ["f"]⟩

def suppliedDependencies : Dependencies :=
  [⟨⟨"/lib/a.nako3", none, 1⟩, ⟨.script, .path (Path.ofString "/lib/a.nako3")⟩,
    .script "1を表示"⟩,
   ⟨⟨"https://example.com/b.js", none, 2⟩, ⟨.native, .url "https://example.com/b.js"⟩,
    .native ⟨Path.ofString "/stage/https___example.com_b.js", ⟨"b", ["f"]⟩⟩⟩]

theorem supplied_apart : ¬ (supplied.tree.makeDirectories supplied.staging.directory).1.LiesIn
    (Path.ofString "/lib/a.nako3") supplied.staging.directory := by
  intro lies
  obtain ⟨d, leads, q, asked, below, _⟩ := lies
  have stage : (supplied.tree.makeDirectories supplied.staging.directory).1.directoryAt
      supplied.staging.directory = .ok [.ofString "stage"] := by decide +kernel
  have asks : (supplied.tree.makeDirectories supplied.staging.directory).1.consulted
      (Path.ofString "/lib/a.nako3") = [[.ofString "lib"], [.ofString "lib", .ofString "a.nako3"]] := by
    decide +kernel
  rw [stage] at leads
  cases leads
  rw [asks] at asked
  have other : ∀ q ∈ ([[.ofString "lib"], [.ofString "lib", .ofString "a.nako3"]] : List Place),
      ¬ [PathText.ofString "stage"] <+: q := by decide +kernel
  exact other q asked below

theorem World.loadSource_delivers_supplied :
    ∃ w', supplied.loadSource (Settings.default fun _ => none) ⟨[1, 1], []⟩ twoImports none =
        (w', .ok suppliedDependencies) ∧
      w'.tree.readText (Path.ofString "/lib/a.nako3") = .ok "1を表示" ∧
      w'.staging.get? "https://example.com/b.js" =
        some (supplied.staging.target "https://example.com/b.js") := by
  have loads : (supplied.loadSource (Settings.default fun _ => none) ⟨[1, 1], []⟩ twoImports none).2 =
      .ok suppliedDependencies := by decide +kernel
  have delivers := (loadSource_delivers (Prod.ext rfl loads)).2.1
  refine ⟨_, Prod.ext rfl loads, ?_, ?_⟩
  · exact ((delivers _ (List.mem_cons_self)).1 supplied_apart).2.1
  · exact (delivers _ (List.mem_cons_of_mem _ List.mem_cons_self)).1.2.1

end ScriptImports
