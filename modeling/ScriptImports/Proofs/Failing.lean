import ScriptImports.Proofs.Imports
import ScriptImports.Proofs.Writing

/-!
What a program is told when its imports do not load. The failure is that of one of its statements. A
reference that cannot be resolved comes before all failures of loading, and leaves the world as it
was; otherwise a task has failed at some moment of the batch, for the reason that its own candidate
could not be loaded at that moment.
-/
namespace ScriptImports

namespace Resolution

theorem resolve_eq_error {s : Settings} {tree : FileTree} {r : Reference} {f : ImportFailure}
    (h : resolve s tree r = .error f) : ∃ cause, f = r.failure cause := by
  rw [resolve] at h
  split at h
  · split at h
    · cases h
    · cases h
      exact ⟨_, rfl⟩
  · split at h
    · cases h
    · cases h
      exact ⟨_, rfl⟩

theorem resolveAll_of_first {s : Settings} {tree : FileTree} {before after : List Reference}
    {r : Reference} {f : ImportFailure}
    (each : ∀ b ∈ before, ∃ resolution, resolve s tree b = .ok resolution)
    (fails : resolve s tree r = .error f) :
    resolveAll s tree (before ++ r :: after) = .error f := by
  induction before with
  | nil => rw [List.nil_append, resolveAll, fails]
  | cons b before ih =>
      obtain ⟨resolution, resolves⟩ := each b List.mem_cons_self
      rw [List.cons_append, resolveAll, resolves]
      dsimp only
      rw [ih fun c hc => each c (List.mem_cons_of_mem b hc)]

end Resolution

/-- Why a candidate cannot be loaded in a world. -/
inductive Candidate.FailsWith (w : World) : Candidate → FailureCause → Prop
  | absent {p : Path} : w.tree.isFile p = false →
    FailsWith w ⟨.script, .path p⟩ (.read p "file does not exist")
  | unreadable {p : Path} {fault : Fault} : w.tree.readText p = .error fault →
    FailsWith w ⟨.script, .path p⟩ (.read p fault.message)
  | refused {kind : ModuleKind} {url reason : String} {status : Option Nat} :
    w.network.reply url = .refused status reason →
      FailsWith w ⟨kind, .url url⟩ (.fetch url status reason)
  | crashed {kind : ModuleKind} {url detail : String} : w.network.reply url = .crash detail →
    FailsWith w ⟨kind, .url url⟩ (.aborted detail)
  | garbled {url reason : String} {body : ByteArray} : w.network.reply url = .body body →
    w.network.text body = .error reason →
      FailsWith w ⟨.script, .url url⟩ (.fetch url none reason)
  | unstaged {write : StagedWrite} {t' : FileTree} {fault : Fault} :
    w.network.reply write.url = .body write.body → write.Fails w.staging w.tree t' fault →
      FailsWith w ⟨.native, .url write.url⟩
        (.staging write.url (w.staging.target write.url) fault)
  | unloaded {p : Path} {fault : CodeFault} : w.registry.load w.tree p = .error fault →
    FailsWith w ⟨.native, .path p⟩ (.code p fault)
  | unloadedStaged {url : String} {body : ByteArray} {fault : CodeFault} :
    w.network.reply url = .body body →
    w.staging.get? url = some (w.staging.target url) →
    w.registry.load w.tree (w.staging.target url) = .error fault →
    FailsWith w ⟨.native, .url url⟩ (.code (w.staging.target url) fault)

theorem LoadTask.Fails.failsWith {m m' : World} {phase : LoadPhase} {c : Candidate}
    {cause : FailureCause} (fails : LoadTask.Fails m phase m' cause) (serves : phase.Serves m c) :
    c.FailsWith m cause := by
  cases fails with
  | absent missing =>
      cases serves
      exact .absent missing
  | unreadable unread =>
      cases serves
      exact .unreadable unread
  | refused fetch reply =>
      cases fetch with
      | inl script =>
          rw [script] at serves
          cases serves
          exact .refused reply
      | inr module_ =>
          rw [module_] at serves
          cases serves
          exact .refused reply
  | crashed fetch reply =>
      cases fetch with
      | inl script =>
          rw [script] at serves
          cases serves
          exact .crashed reply
      | inr module_ =>
          rw [module_] at serves
          cases serves
          exact .crashed reply
  | garbled reply unread =>
      cases serves
      exact .garbled reply unread
  | unstaged staging =>
      obtain ⟨rfl, reply⟩ := serves
      exact .unstaged reply staging
  | unloaded load =>
      cases serves with
      | inl local_ =>
          cases local_
          exact .unloaded load
      | inr remote =>
          obtain ⟨url, body, rfl, rfl, entry, reply⟩ := remote
          exact .unloadedStaged reply entry load

/-- Under a schedule, the batch for what references were resolved to stops when the task of one of
them fails, for what keeps the candidate of that reference from being loaded at that moment. -/
def World.TaskFails (w : World) (schedule : Schedule) (resolved : List (Reference × Candidate))
    (r : Reference × Candidate) (cause : FailureCause) : Prop :=
  ∃ i m task w', resolved[i]? = some r ∧
    Batch.Stops (w.batch resolved) ((w.batch resolved).allTurns schedule) i m task w' cause ∧
    r.2.FailsWith m.world cause

theorem World.loadBatch_fails {w w' : World} {schedule : Schedule}
    {resolved : List (Reference × Candidate)} {f : ImportFailure}
    (h : w.loadBatch schedule resolved = (w', .error f)) :
    ∃ r ∈ resolved, ∃ cause, w.TaskFails schedule resolved r cause ∧ f = r.1.failure cause := by
  obtain ⟨i, m, task, w'', cause, stops, rfl, _⟩ := loadBatch_eq_error h
  obtain ⟨_, proceeds, there, fails⟩ := id stops
  obtain ⟨r, at_r, owner, serves⟩ := serves_of_proceeds proceeds there
  refine ⟨r, List.mem_of_getElem? at_r, cause, ?_, by rw [owner]⟩
  exact ⟨i, m, task, w'', at_r, stops, fails.failsWith serves⟩

/-- One of the references fails: its resolution does, or the task for it in the batch for all of
them. -/
def World.Blames (w : World) (s : Settings) (schedule : Schedule) (references : List Reference)
    (f : ImportFailure) : Prop :=
  ∃ r ∈ references, ∃ cause, f = r.failure cause ∧
    (Resolution.resolve s w.tree r = .error f ∨
      ∃ resolved c, resolved.map Prod.fst = references ∧
        (∀ x ∈ resolved, ∃ trace, Resolution.resolve s w.tree x.1 = .ok ⟨x.2, trace⟩) ∧
        w.TaskFails schedule resolved (r, c) cause)

theorem World.loadReferences_blames {w w' : World} {s : Settings} {schedule : Schedule}
    {references : List Reference} {f : ImportFailure}
    (h : w.loadReferences s schedule references = (w', .error f)) :
    w.Blames s schedule references f := by
  cases loadReferences_eq_error h with
  | inl unresolved =>
      obtain ⟨before, r, after, rfl, _, fails⟩ := Resolution.resolveAll_eq_error unresolved.1
      obtain ⟨cause, failure⟩ := Resolution.resolve_eq_error fails
      exact ⟨r, by simp, cause, failure, Or.inl fails⟩
  | inr loading =>
      obtain ⟨resolved, all, loaded⟩ := loading
      obtain ⟨⟨r, c⟩, hr, cause, fails, failure⟩ := loadBatch_fails loaded
      obtain ⟨order, each⟩ := Resolution.resolveAll_candidates all
      have there : r ∈ references := by
        rw [← order]
        exact List.mem_map_of_mem hr
      exact ⟨r, there, cause, failure, Or.inr ⟨_, c, order, each, fails⟩⟩

/-- References can be resolved to candidates in one way only. -/
theorem Resolution.candidates_unique {s : Settings} {tree : FileTree}
    {resolved resolved' : List (Reference × Candidate)}
    (order : resolved.map Prod.fst = resolved'.map Prod.fst)
    (each : ∀ x ∈ resolved, ∃ trace, resolve s tree x.1 = .ok ⟨x.2, trace⟩)
    (each' : ∀ x ∈ resolved', ∃ trace, resolve s tree x.1 = .ok ⟨x.2, trace⟩) :
    resolved = resolved' := by
  induction resolved generalizing resolved' with
  | nil =>
      cases resolved' with
      | nil => rfl
      | cons _ _ => cases order
  | cons x resolved ih =>
      cases resolved' with
      | nil => cases order
      | cons x' resolved' =>
          rw [List.map_cons, List.map_cons, List.cons.injEq] at order
          obtain ⟨trace, here⟩ := each x List.mem_cons_self
          obtain ⟨trace', here'⟩ := each' x' List.mem_cons_self
          rw [order.1, here'] at here
          have same : x = x' := by
            rw [Except.ok.injEq, Resolution.mk.injEq] at here
            exact Prod.ext order.1 here.1.symm
          rw [same, ih order.2 (fun y hy => each y (List.mem_cons_of_mem x hy))
            fun y hy => each' y (List.mem_cons_of_mem x' hy)]

/-- Where one reference fails, the program does. -/
theorem World.loadReferences_of_blames {w : World} {s : Settings} {schedule : Schedule}
    {references : List Reference} {f : ImportFailure} (h : w.Blames s schedule references f) :
    ∃ w' g, w.loadReferences s schedule references = (w', .error g) := by
  rw [loadReferences]
  cases all : Resolution.resolveAll s w.tree references with
  | error g => exact ⟨w, g, rfl⟩
  | ok found =>
      obtain ⟨r, hr, cause, _, fails⟩ := h
      obtain ⟨order, each⟩ := Resolution.resolveAll_candidates all
      cases fails with
      | inl unresolved =>
          rw [← order] at hr
          obtain ⟨x, hx, rfl⟩ := List.mem_map.1 hr
          obtain ⟨trace, resolves⟩ := each x hx
          rw [unresolved] at resolves
          cases resolves
      | inr unloaded =>
          obtain ⟨resolved, c, order', each', i, m, task, w', _, stops, _⟩ := unloaded
          have same := Resolution.candidates_unique (order'.trans order.symm) each' each
          rw [same] at stops
          dsimp only
          rw [loadBatch, loadAll_of_stops stops]
          exact ⟨_, _, rfl⟩

/-- A load that fails, under whatever schedule, tells the file and the line of a statement. If there
are references that do not resolve, then the failure is that of the first of them, and the world is
as it was; if all resolve, then it is the failure of loading the candidate of its own reference. -/
theorem World.loadSource_fails {w w' : World} {s : Settings} {schedule : Schedule}
    {code : String} {file : Option Path} {f : ImportFailure}
    (h : w.loadSource s schedule code file = (w', .error f)) :
    f.file = file ∧
    (∃ i line, (Text.lines code.toList)[i]? = some line ∧ Statement.names line ≠ [] ∧
      f.line = .ofNat (i + 1)) ∧
    (∀ before r after g, Statement.scan code file = before ++ r :: after →
      (∀ b ∈ before, ∃ resolution, Resolution.resolve s w.tree b = .ok resolution) →
      Resolution.resolve s w.tree r = .error g → f = g ∧ w' = w) ∧
    ((∀ r ∈ Statement.scan code file, ∃ resolution,
        Resolution.resolve s w.tree r = .ok resolution) →
      ∃ resolved : List (Reference × Candidate),
        resolved.map Prod.fst = Statement.scan code file ∧
        (∀ r ∈ resolved, ∃ trace, Resolution.resolve s w.tree r.1 = .ok ⟨r.2, trace⟩) ∧
        ∃ r ∈ resolved, ∃ cause, w.TaskFails schedule resolved r cause ∧
          f = r.1.failure cause) := by
  rw [loadSource] at h
  obtain ⟨r, hr, cause, blames, _⟩ := loadReferences_blames h
  obtain ⟨i, line, at_i, name, hname, rfl⟩ := Statement.mem_scan.1 hr
  refine ⟨by rw [blames]; rfl, ⟨i, line, at_i, List.ne_nil_of_mem hname, by rw [blames]; rfl⟩,
    ?_, ?_⟩
  · intro before r after g scanned resolves fails
    have stops : Resolution.resolveAll s w.tree (before ++ r :: after) = .error g :=
      Resolution.resolveAll_of_first resolves fails
    rw [loadReferences, scanned, stops] at h
    cases h
    exact ⟨rfl, rfl⟩
  · intro resolves
    cases loadReferences_eq_error h with
    | inl unresolved =>
        obtain ⟨before, r, after, scanned, _, fails⟩ :=
          Resolution.resolveAll_eq_error unresolved.1
        obtain ⟨resolution, same⟩ := resolves r (scanned ▸ by simp)
        rw [fails] at same
        cases same
    | inr loading =>
        obtain ⟨resolved, all, loaded⟩ := loading
        obtain ⟨order, each⟩ := Resolution.resolveAll_candidates all
        exact ⟨_, order, each, loadBatch_fails loaded⟩

/-- The network has nothing at the URL, and the name in the second line needs an importing file. -/
def twoFaults : String := "!「https://example.com/a.nako3」を取り込む\n!「b.nako3」を取り込む"

def desolate : World := ⟨.empty, ⟨Path.ofString "/stage", []⟩, .empty, .empty⟩

theorem World.loadSource_fails_twoFaults :
    desolate.loadSource (Settings.default fun _ => none) ⟨[], []⟩ twoFaults none =
      (desolate, .error ⟨.missingOrigin "b.nako3", none, 2⟩) := by
  have scan : Statement.scan twoFaults none =
      [⟨"https://example.com/a.nako3", none, 1⟩, ⟨"b.nako3", none, 2⟩] := by decide +kernel
  have fails : (desolate.loadSource (Settings.default fun _ => none) ⟨[], []⟩ twoFaults none).2 =
      .error ⟨.missingOrigin "b.nako3", none, 2⟩ := by decide +kernel
  obtain ⟨_, _, unresolved, _⟩ := loadSource_fails (Prod.ext rfl fails)
  have resolves : ∀ b ∈ [(⟨"https://example.com/a.nako3", none, 1⟩ : Reference)],
      ∃ resolution, Resolution.resolve (Settings.default fun _ => none) desolate.tree b =
        .ok resolution := by
    intro b hb
    rw [List.mem_singleton.1 hb]
    exact ⟨⟨⟨.script, .url "https://example.com/a.nako3"⟩, []⟩, by decide +kernel⟩
  have stops : Resolution.resolve (Settings.default fun _ => none) desolate.tree
      ⟨"b.nako3", none, 2⟩ = .error ⟨.missingOrigin "b.nako3", none, 2⟩ := by decide +kernel
  have first := unresolved [_] _ [] _ scan resolves stops
  exact Prod.ext first.2 fails

end ScriptImports
