import ScriptImports.Proofs.Imports
import ScriptImports.Proofs.Underway

/-!
What a batch leaves behind, whether it succeeds or fails. It changes the tree in the staging
directory and on the way to it, and there it moves bodies to their targets that were fetched for
remote native modules; the entries that it adds to the staging area are for such bodies too. The
registry stays as it was. A batch that fails does not wait for the stagings of its other tasks, so that
temporary files can be there when it has failed; they are gone when those stagings have come to their
ends, unless the way to the staging directory has been cut.
-/
namespace ScriptImports

open FileTree

namespace Staging

/-- The staging area when downloads have been recorded, the first one first. -/
def recordAll (s : Staging) (downloads : List Download) : Staging :=
  downloads.foldl (fun s c => s.record c.url) s

theorem recordAll_concat (s : Staging) (downloads : List Download) (c : Download) :
    s.recordAll (downloads ++ [c]) = (s.recordAll downloads).record c.url := by
  rw [recordAll, List.foldl_append, recordAll, List.foldl_cons, List.foldl_nil]

theorem recordAll_directory (s : Staging) (downloads : List Download) :
    (s.recordAll downloads).directory = s.directory := by
  induction downloads generalizing s with
  | nil => rfl
  | cons c downloads ih => exact ih (s.record c.url)

theorem get?_recordAll (s : Staging) (downloads : List Download) (url : String) :
    (s.recordAll downloads).get? url =
      if ∃ c ∈ downloads, c.url = url then some (s.target url) else s.get? url := by
  induction downloads generalizing s with
  | nil => rw [recordAll, List.foldl_nil, if_neg (by simp)]
  | cons c downloads ih =>
      have onward : (s.recordAll (c :: downloads)).get? url =
          if ∃ c ∈ downloads, c.url = url then some (s.target url)
          else (s.record c.url).get? url := ih (s.record c.url)
      rw [onward, get?_record]
      by_cases own : url = c.url
      · simp [own]
      · simp [own, Ne.symm own]

end Staging

/-- The body is the reply of the network for a remote native module among the candidates. -/
def World.Fetches (w : World) (candidates : List Candidate) (c : Download) : Prop :=
  ⟨.native, .url c.url⟩ ∈ candidates ∧ w.network.reply c.url = .body c.body

/-- What an action of a task changes, when its staging was `before` and is then `after`. A task that
is at no staging changes nothing; if an action is `broken`, a temporary file may be left. -/
structure World.Acts (w : World) (before after : Option StagedWrite) (broken : Prop) (w' : World) :
    Prop where
  registry : w'.registry = w.registry
  tree : w'.tree = w.tree ∨ before.isSome
  staging : w'.staging = w.staging ∨
    ∃ write, before = some write ∧ w'.staging = w.staging.record write.url
  underway {base : FileTree} {left : List (Temporary × ByteArray)} {moved : List Download}
    (others : List StagedWrite) :
    Underway base w.staging.directory (before.toList ++ others) left moved w.tree →
      ∃ left' moved', (left' = left ∨ broken) ∧
        (∀ c ∈ moved', c ∈ moved ∨ ∃ write, before = some write ∧ c = write.download) ∧
        Underway base w.staging.directory (after.toList ++ others) left' moved' w'.tree

section

variable {w w' : World} {phase phase' : LoadPhase}

theorem LoadTask.Goes.acts (goes : LoadTask.Goes w phase w' phase') :
    w.Acts phase.write? phase'.write? False w' := by
  cases goes with
  | checks _ =>
      exact ⟨rfl, Or.inl rfl, Or.inl rfl, fun _ underway => ⟨_, _, Or.inl rfl, fun _ => .inl, underway⟩⟩
  | fetches _ =>
      exact ⟨rfl, Or.inl rfl, Or.inl rfl,
        fun _ underway => ⟨_, _, Or.inl rfl, fun _ => .inl, underway.enter rfl⟩⟩
  | @stages _ write write' goes =>
      refine ⟨rfl, Or.inr rfl, Or.inl rfl,
        fun _ underway => ⟨_, _, Or.inl rfl, fun c hc => ?_, goes.underway underway⟩⟩
      exact (StagedWrite.mem_addTo.1 hc).imp_right fun its => ⟨write, rfl, its.2.trans goes.download⟩
  | @staged write moved =>
      have closed : write.temporary? = none := by rw [StagedWrite.temporary?, moved]
      exact ⟨rfl, Or.inl rfl, Or.inr ⟨write, rfl, rfl⟩,
        fun _ underway => ⟨_, _, Or.inl rfl, fun _ => .inl, underway.leave closed⟩⟩

theorem LoadTask.Gives.acts {a : Payload} (gives : LoadTask.Gives w phase w' a) :
    w.Acts phase.write? none False w' := by
  cases gives <;>
    exact ⟨rfl, Or.inl rfl, Or.inl rfl,
      fun _ underway => ⟨_, _, Or.inl rfl, fun _ => .inl, underway⟩⟩

theorem LoadTask.Fails.acts {cause : FailureCause} (fails : LoadTask.Fails w phase w' cause) :
    w.Acts phase.write? none True w' := by
  cases fails with
  | absent _ | unreadable _ | unloaded _ | garbled _ _ =>
      exact ⟨rfl, Or.inl rfl, Or.inl rfl,
        fun _ underway => ⟨_, _, Or.inl rfl, fun _ => .inl, underway⟩⟩
  | refused fetch _ | crashed fetch _ =>
      obtain rfl | rfl := fetch <;>
        exact ⟨rfl, Or.inl rfl, Or.inl rfl,
          fun _ underway => ⟨_, _, Or.inl rfl, fun _ => .inl, underway⟩⟩
  | unstaged fails =>
      refine ⟨rfl, Or.inr rfl, Or.inl rfl, fun _ underway => ?_⟩
      obtain ⟨left', after⟩ := fails.underway underway
      exact ⟨left', _, Or.inr trivial, fun _ => .inl, after⟩

/-- What a task does that nobody waits for. -/
theorem LoadTask.goOn_acts (w : World) (t : LoadTask) :
    w.Acts t.phase.write? (t.goOn w).2.phase.write? True (t.goOn w).1 := by
  cases own : t.phase.write? with
  | none =>
      rw [goOn_idle w own]
      exact ⟨rfl, Or.inl rfl, Or.inl rfl,
        fun _ underway => ⟨_, _, Or.inl rfl, fun _ => .inl, underway⟩⟩
  | some write =>
      obtain ⟨owner, rfl⟩ := of_write?_eq_some own
      rw [write?_goOn, goOn_staging]
      refine ⟨rfl, Or.inr rfl, Or.inl rfl, fun _ underway => ?_⟩
      obtain ⟨left', moved', new, after⟩ := StagedWrite.goOn_underway underway
      refine ⟨left', moved', Or.inr trivial, fun c hc => ?_, after⟩
      rcases new with rfl | rfl
      · exact Or.inl hc
      · exact (List.mem_cons.1 hc).symm.imp_right fun its => ⟨write, rfl, its⟩

theorem LoadTask.download_goOn {t : LoadTask} {write : StagedWrite}
    (h : (t.goOn w).2.phase.write? = some write) :
    ∃ before, t.phase.write? = some before ∧ write.download = before.download := by
  cases own : t.phase.write? with
  | none =>
      rw [goOn_idle w own] at h
      cases h
  | some before =>
      obtain ⟨owner, rfl⟩ := of_write?_eq_some own
      rw [write?_goOn] at h
      refine ⟨before, rfl, ?_⟩
      obtain ⟨_, acts⟩ | ⟨_, _, acts, goes⟩ | ⟨_, _, acts, _⟩ | ⟨_, acts⟩ :=
        StagedWrite.goOn_cases w.staging w.tree before <;> rw [acts] at h <;> cases h
      exact goes.download

end

/-- The body of a staging is the one that was fetched for a candidate. -/
def Batch.Fetched (w : World) (candidates : List Candidate) (b : Batch) : Prop :=
  ∀ task ∈ b.tasks, ∀ write, task.phase.write? = some write → w.Fetches candidates write.download

theorem Batch.Holds.fetched {w : World} {candidates : List Candidate} {b : Batch}
    (holds : Holds w candidates b) : b.Fetched w candidates := by
  intro task there write own
  obtain ⟨i, at_i⟩ := List.mem_iff_getElem?.1 there
  obtain ⟨c, at_c, serves⟩ := holds.serves i task at_i
  obtain ⟨owner, rfl⟩ := LoadTask.of_write?_eq_some own
  obtain ⟨rfl, reply⟩ := serves
  exact ⟨List.mem_of_getElem? at_c, (holds.follows.reply _).symm.trans reply⟩

/-- `w'` is `w` after stagings of bodies that were fetched for the candidates. Those of `writes` are
still under way, and the temporary files `left` are no longer any staging's. -/
structure World.Confined (w : World) (candidates : List Candidate) (writes : List StagedWrite)
    (left : List (Temporary × ByteArray)) (w' : World) : Prop where
  registry : w'.registry = w.registry
  untouched : w'.tree = w.tree ∨ ∃ c, w.Fetches candidates c
  staging : ∃ recorded, (∀ c ∈ recorded, w.Fetches candidates c) ∧
    w'.staging = w.staging.recordAll recorded
  underway : ∃ moved, (∀ c ∈ moved, w.Fetches candidates c) ∧
    Underway w.tree w.staging.directory writes left moved w'.tree

namespace World.Confined

variable {w m m' : World} {candidates : List Candidate} {left : List (Temporary × ByteArray)}

theorem start (w : World) (candidates : List Candidate) : w.Confined candidates [] [] w :=
  ⟨rfl, Or.inl rfl, ⟨[], nofun, rfl⟩, [], nofun, .start w.tree w.staging.directory⟩

theorem directory {writes : List StagedWrite} (confined : w.Confined candidates writes left m) :
    m.staging.directory = w.staging.directory := by
  obtain ⟨recorded, _, staging⟩ := confined.staging
  rw [staging, Staging.recordAll_directory]

theorem record {writes : List StagedWrite} (confined : w.Confined candidates writes left m)
    {write : StagedWrite} (fetched : w.Fetches candidates write.download) :
    ∃ recorded, (∀ c ∈ recorded, w.Fetches candidates c) ∧
      m.staging.record write.url = w.staging.recordAll recorded := by
  obtain ⟨recorded, each, staging⟩ := confined.staging
  refine ⟨recorded ++ [write.download], ?_, ?_⟩
  · rw [List.forall_mem_append, List.forall_mem_singleton]
    exact ⟨each, fetched⟩
  · rw [staging, Staging.recordAll_concat]
    rfl

/-- One action of one task, whose staging is of a body that was fetched. -/
theorem act {tasks : List LoadTask} {i : Nat} {task : LoadTask} {broken : Prop}
    (confined : w.Confined candidates (tasks.filterMap fun task => task.phase.write?) left m)
    (there : tasks[i]? = some task) (task' : LoadTask)
    (acts : m.Acts task.phase.write? task'.phase.write? broken m')
    (before : ∀ write, task.phase.write? = some write → w.Fetches candidates write.download) :
    ∃ left', (left' = left ∨ broken) ∧ w.Confined candidates
      ((tasks.set i task').filterMap fun task => task.phase.write?) left' m' := by
  obtain ⟨moved, each, underway⟩ := confined.underway
  obtain ⟨others, under, onto⟩ := underway.set there
  rw [← confined.directory] at under
  obtain ⟨left', moved', kept, new, after⟩ := acts.underway others under
  rw [confined.directory] at after
  refine ⟨left', kept, acts.registry.trans confined.registry, ?_, ?_, moved', fun c hc => ?_,
    onto after⟩
  · cases acts.tree with
    | inl same =>
        rw [same]
        exact confined.untouched
    | inr some =>
        obtain ⟨write, own⟩ := Option.isSome_iff_exists.1 some
        exact Or.inr ⟨_, before write own⟩
  · rcases acts.staging with same | ⟨write, own, records⟩
    · rw [same]
      exact confined.staging
    · rw [records]
      exact confined.record (before write own)
  · rcases new c hc with hc | ⟨write, own, rfl⟩
    · exact each c hc
    · exact before write own

end World.Confined

namespace Batch

/-- The stagings that are under way in a batch. -/
def writes (b : Batch) : List StagedWrite := b.tasks.filterMap fun task => task.phase.write?

variable {w : World} {candidates : List Candidate} {b m b' : Batch}
  {left : List (Temporary × ByteArray)}

theorem confined_start (w : World) (resolved : List (Reference × Candidate)) :
    w.Confined (resolved.map Prod.snd) (w.batch resolved).writes [] w := by
  have none : (w.batch resolved).writes = [] := by
    rw [writes, List.filterMap_eq_nil_iff]
    intro task there
    obtain ⟨⟨owner, kind, location⟩, _, rfl⟩ := List.mem_map.1 there
    cases kind <;> cases location <;> rfl
  rw [none]
  exact .start w _

theorem Proceeds.confined {turns : Turns} {values : List (Nat × Payload)}
    (proceeds : Proceeds b turns values b') (holds : Holds w candidates b)
    (confined : w.Confined candidates b.writes left b.world) :
    Holds w candidates b' ∧ w.Confined candidates b'.writes left b'.world := by
  apply proceeds.keeps
    (P := fun m => Holds w candidates m ∧ w.Confined candidates m.writes left m.world)
  · intro m m' i task phase kept there tasks acts
    obtain ⟨holds, confined⟩ := kept
    obtain ⟨holds', _⟩ := holds.turn there tasks acts
    refine ⟨holds', ?_⟩
    have acts : m.world.Acts task.phase.write? phase.write? False m'.world := by
      cases acts with
      | inl goes => exact goes.acts
      | inr gives =>
          obtain ⟨_, rfl, gives⟩ := gives
          exact gives.acts
    obtain ⟨left', same, after⟩ := confined.act there { task with phase := phase } acts
      (holds.fetched task (List.mem_of_getElem? there))
    rw [same.resolve_right id] at after
    rw [writes, tasks]
    exact after
  · exact ⟨holds, confined⟩

theorem Fetched.set {i : Nat} {task : LoadTask} {world : World} (fetched : b.Fetched w candidates)
    (own : ∀ write, task.phase.write? = some write → w.Fetches candidates write.download) :
    Fetched w candidates ⟨world, b.tasks.set i task⟩ := by
  intro other among
  cases List.mem_or_eq_of_mem_set among with
  | inl before => exact fetched other before
  | inr its =>
      rw [its]
      exact own

/-- What is left behind goes on, whoever's turn it is. -/
theorem goOn_confined (fetched : b.Fetched w candidates)
    (confined : w.Confined candidates b.writes left b.world) (i : Nat) :
    (b.goOn i).Fetched w candidates ∧
      ∃ left', w.Confined candidates (b.goOn i).writes left' (b.goOn i).world := by
  cases there : b.tasks[i]? with
  | none =>
      have same : b.goOn i = b := by rw [goOn, there]
      rw [same]
      exact ⟨fetched, left, confined⟩
  | some task =>
      have goes : b.goOn i = ⟨(task.goOn b.world).1, b.tasks.set i (task.goOn b.world).2⟩ := by
        rw [goOn, there]
      have own := fetched task (List.mem_of_getElem? there)
      obtain ⟨left', _, after⟩ :=
        confined.act there (task.goOn b.world).2 (LoadTask.goOn_acts b.world task) own
      rw [goes]
      refine ⟨fetched.set fun write next => ?_, left', after⟩
      obtain ⟨before, is, same⟩ := LoadTask.download_goOn next
      rw [same]
      exact own before is

theorem leave_confined (later : Turns) (fetched : b.Fetched w candidates)
    (confined : w.Confined candidates b.writes left b.world) :
    ∃ left', w.Confined candidates (later.foldl goOn b).writes left' (b.leave later) := by
  induction later generalizing b left with
  | nil => exact ⟨left, confined⟩
  | cons i later ih =>
      obtain ⟨fetched', left', confined'⟩ := goOn_confined fetched confined i
      exact ih fetched' confined'

theorem writes_of_complete (b : Batch) (nothingLeft : ∀ i, b.remaining i = 0) : b.writes = [] := by
  rw [writes, List.filterMap_eq_nil_iff]
  intro task there
  obtain ⟨i, at_i⟩ := List.mem_iff_getElem?.1 there
  have ended := nothingLeft i
  rw [remaining, at_i] at ended
  rw [LoadPhase.remaining_eq_zero.1 ended]
  rfl

end Batch

namespace World

/-- A batch that succeeds has no staging under way any more; one that fails leaves those behind that
are under way, until they have had as many turns as a task can need. -/
theorem loadBatch_confined (w : World) (schedule : Schedule)
    (resolved : List (Reference × Candidate)) :
    ∃ writes left,
      w.Confined (resolved.map Prod.snd) writes left (w.loadBatch schedule resolved).1 ∧
      (∀ deps, (w.loadBatch schedule resolved).2 = .ok deps → writes = [] ∧ left = []) ∧
      ((∀ i < resolved.length, LoadTask.maxSteps ≤ schedule.later.count i) → writes = []) := by
  cases (w.batch resolved).proceeds_or_stops ((w.batch resolved).allTurns schedule) with
  | inl all =>
      obtain ⟨values, b', proceeds⟩ := all
      obtain ⟨payloads, loaded, _⟩ := loadAll_of_proceeds (batch_fresh w resolved) proceeds
      obtain ⟨_, confined⟩ := proceeds.confined (.start w resolved) (Batch.confined_start w resolved)
      rw [b'.writes_of_complete proceeds.complete] at confined
      rw [batch] at loaded
      rw [loadBatch, loaded]
      exact ⟨[], [], confined, fun _ _ => ⟨rfl, rfl⟩, fun _ => rfl⟩
  | inr stopped =>
      obtain ⟨i, m, task, w'', cause, stops⟩ := stopped
      have loaded := loadAll_of_stops stops
      obtain ⟨turns, proceeds, there, fails⟩ := stops
      obtain ⟨holds, confined⟩ :=
        proceeds.confined (.start w resolved) (Batch.confined_start w resolved)
      obtain ⟨left, _, failed⟩ := confined.act there { task with phase := .finished }
        fails.acts (holds.fetched task (List.mem_of_getElem? there))
      have fetched : Batch.Fetched w (resolved.map Prod.snd)
          ⟨w'', m.tasks.set i { task with phase := .finished }⟩ :=
        holds.fetched.set fun _ own => by cases own
      obtain ⟨left', after⟩ := Batch.leave_confined schedule.later fetched failed
      rw [loadBatch, loaded]
      dsimp only
      have count : (m.tasks.set i { task with phase := .finished }).length = resolved.length := by
        simpa [batch] using congrArg List.length proceeds.owners
      refine ⟨_, left', after, ?_, fun enough => Batch.writes_of_complete _ ?_⟩
      · intro deps succeeds
        cases succeeds
      · apply Batch.remaining_eq_zero (Batch.leave_nearer _ schedule.later)
        intro j inside
        exact enough j (count ▸ inside)

/-- What a load does to the tree that writes nowhere but to files at targets and on the way to the
staging directory. -/
def StaysAtTargets (w : World) (candidates : List Candidate) (w' : World) : Prop :=
  ∀ q, w'.tree.node? q = w.tree.node? q ∨
    (w.tree.node? q = none ∧ w'.tree.node? q = some .directory) ∨
    ∃ c d, w.Fetches candidates c ∧ q = Staging.place d c.url ∧
      ∀ target, w.tree.node? q ≠ some (.link target)

/-- A native module to be staged, and a script that the network refuses. -/
def remotePair : List (Reference × Candidate) :=
  [(⟨"http://a", none, 1⟩, ⟨.native, .url "http://a"⟩),
   (⟨"http://b", none, 2⟩, ⟨.script, .url "http://b"⟩)]

/-- The staging area `/stage` in a tree, and a network with one body. -/
def stagingIn (tree : FileTree) : World where
  tree := tree
  staging := ⟨Path.ofString "/stage", []⟩
  network := Network.empty.set "http://a" (.body "one".toUTF8)
  registry := .empty

/-- A tree with a link to its root where the body of `http://a` is staged. -/
def linkedTarget : FileTree :=
  FileTree.empty.write (Path.ofString "/stage/http___a") (.link (Path.ofString "/"))

/-- A script fails when the temporary file of a native module has been made, and the file is there when
the batch has failed; and a batch that succeeds has put a file in the place of a link. -/
theorem loadBatch_not_staysAtTargets :
    (¬ (stagingIn .empty).StaysAtTargets (remotePair.map Prod.snd)
      ((stagingIn .empty).loadBatch ⟨[0, 0, 0, 1], []⟩ remotePair).1) ∧
    ¬ (stagingIn linkedTarget).StaysAtTargets (remotePair.map Prod.snd)
      ((stagingIn linkedTarget).loadBatch ⟨[], []⟩ (remotePair.take 1)).1 := by
  constructor
  · intro stays
    have stands : ((stagingIn .empty).loadBatch ⟨[0, 0, 0, 1], []⟩ remotePair).1.tree.node?
        ([.ofString "stage"] ++ [.ofString "~~~~~~~~~~"]) = some (.file .empty) := by decide +kernel
    have free : (stagingIn .empty).tree.node?
        ([.ofString "stage"] ++ [.ofString "~~~~~~~~~~"]) = none := by decide +kernel
    rcases stays ([.ofString "stage"] ++ [.ofString "~~~~~~~~~~"]) with
      same | ⟨_, made⟩ | ⟨c, d, _, here, _⟩
    · rw [stands, free] at same
      cases same
    · rw [stands] at made
      cases made
    · rw [Staging.place, List.append_singleton_inj, PathText.ofString_inj] at here
      have name : "~~~~~~~~~~" = Staging.flatten c.url := here.2
      have tilde : '~' ∈ (Staging.flatten c.url).toList := by
        rw [← name]
        decide
      exact Staging.not_mem_flatten (by decide) (by decide) c.url tilde
  · intro stays
    have stands : ((stagingIn linkedTarget).loadBatch ⟨[], []⟩ (remotePair.take 1)).1.tree.node?
        [.ofString "stage", .ofString "http___a"] = some (.file "one".toUTF8) := by decide +kernel
    have link : (stagingIn linkedTarget).tree.node? [.ofString "stage", .ofString "http___a"] =
        some (.link (Path.ofString "/")) := by decide +kernel
    rcases stays [.ofString "stage", .ofString "http___a"] with
      same | ⟨free, _⟩ | ⟨_, _, _, _, unlinked⟩
    · rw [stands, link] at same
      cases same
    · rw [link] at free
      cases free
    · exact unlinked _ link

/-- However the tasks of a batch take turns, and whether it succeeds or fails, it changes the tree only
by directories on the way to the staging directory, by files there that have the bodies which were
fetched for remote native modules, and by temporary files there. A batch that succeeds leaves none of
these, and one that fails leaves none for longer than its stagings go on, unless a link that the way
went through has given way to a file. The entries that it adds are for such modules too. When no body
is fetched for a native module, nothing changes. -/
theorem loadBatch_footprint (w : World) (schedule : Schedule)
    (resolved : List (Reference × Candidate)) :
    let w' := (w.loadBatch schedule resolved).1
    let fetches := w.Fetches (resolved.map Prod.snd)
    w'.registry = w.registry ∧
    (∃ recorded, (∀ c ∈ recorded, fetches c) ∧ w'.staging = w.staging.recordAll recorded ∧
      ∀ url, w'.staging.get? url =
        if ∃ c ∈ recorded, c.url = url then some (w.staging.target url) else w.staging.get? url) ∧
    (∃ made moved, ∃ files : List (Temporary × ByteArray), (∀ c ∈ moved, fetches c) ∧
      Paved w.staging.directory.ancestors w.tree made ∧ w'.tree.current = w.tree.current ∧
      (∀ deps, (w.loadBatch schedule resolved).2 = .ok deps → files = []) ∧
      match made.directoryAt w.staging.directory with
      | .error _ => files = [] ∧ ∀ q, w'.tree.node? q = made.node? q
      | .ok d =>
        (∀ c ∈ moved, made.node? (Staging.place d c.url) ≠ some .directory) ∧
        (∀ f ∈ files, made.IsTemporary w.staging.directory d f.1 ∧
          w'.tree.node? f.1.place = some (.file f.2)) ∧
        (∀ q, q ∉ files.map (fun f => f.1.place) → w'.tree.node? q = made.nodeAfter d moved q) ∧
        ((∀ i < resolved.length, LoadTask.maxSteps ≤ schedule.later.count i) → files = [] ∨
          w'.tree.directoryAt w.staging.directory = .error .notDirectory ∧
            ∃ c ∈ moved, ∃ target, w.tree.node? (Staging.place d c.url) = some (.link target))) ∧
    ((∀ c, ¬ fetches c) → w'.tree = w.tree ∧ w'.staging = w.staging) := by
  intro w' fetches
  obtain ⟨writes, left, ⟨registry, untouched, ⟨recorded, each, staging⟩, moved, arrived, underway⟩,
    sound, ended⟩ := w.loadBatch_confined schedule resolved
  have entry (url : String) := w.staging.get?_recordAll recorded url
  refine ⟨registry, ⟨recorded, each, staging, fun url => by rw [staging, entry]⟩, ?_,
    fun none => ⟨?_, ?_⟩⟩
  · cases underway with
    | nowhere paved stops _ _ _ =>
        refine ⟨_, [], [], nofun, paved, paved.grows.current, fun _ _ => rfl, ?_⟩
        rw [stops]
        exact ⟨rfl, fun _ => rfl⟩
    | @within made d paved staged cut =>
        refine ⟨made, moved, writes.filterMap StagedWrite.temporary? ++ left, arrived, paved,
          staged.current.trans paved.grows.current, fun deps loaded => ?_, ?_⟩
        · obtain ⟨rfl, rfl⟩ := sound deps loaded
          rfl
        rw [staged.leads]
        refine ⟨staged.replaces, staged.temporary, staged.rest, fun enough => ?_⟩
        rw [ended enough, List.filterMap_nil, List.nil_append]
        rcases staged.leads_or_cut with leads | ⟨stops, c, hc, target, link⟩
        · exact Or.inl (Staged.left_eq_nil cut leads)
        · exact Or.inr ⟨stops, c, hc, target, paved.grows.link link⟩
  · exact untouched.resolve_right fun ⟨c, fetched⟩ => none c fetched
  · rw [staging, List.eq_nil_iff_forall_not_mem.2 fun c hc => none c (each c hc)]
    rfl

end World

end ScriptImports
