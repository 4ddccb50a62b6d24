import ScriptImports.Proofs.Roots

/-!
The search without a memory: it asks the tree anew at every probe and takes the first candidate that
is found. A session remembers answers by the key of a path, but all paths of one search are spelled
by their segments, so that it never takes the answer for one path as the answer for another.
-/
namespace ScriptImports

/-- A probe with the path that was asked for, of which the row has only what is printed. -/
structure Probe where
  label : String
  path : Path
  found : Bool
deriving DecidableEq

def Probe.row (x : Probe) : ProbeRow := ⟨x.label, x.path.toString, x.found⟩

def FileTree.probe (t : FileTree) (label : String) (p : Path) : ProbeRow :=
  ⟨label, p.toString, t.isFile p⟩

namespace SearchStep

def isCode (s : Settings) (step : SearchStep) : Bool :=
  Name.hasExtension step.path.toString.toList s.nativeExtensions false

def descriptor (step : SearchStep) : Path := step.path.child Descriptor.fileName

/-- The entry file that the descriptor of a step names. A descriptor that cannot be used names
none. -/
def entry (t : FileTree) (step : SearchStep) : Option Path :=
  (Descriptor.read t step.descriptor).toOption.map fun main => (step.path.child main).normalize

/-- The file that a step finds in a tree. -/
def found (s : Settings) (t : FileTree) (step : SearchStep) : Option Path :=
  if step.isCode s && t.isFile step.path then some step.path
  else if t.isFile step.descriptor then step.entry t
  else none

/-- What the tree is asked for a step. -/
def rows (s : Settings) (t : FileTree) (step : SearchStep) : ProbeLog :=
  (if step.isCode s then [t.probe step.label step.path] else []) ++
  if step.isCode s && t.isFile step.path then []
  else [t.probe (step.label ++ "/" ++ Descriptor.fileName) step.descriptor]

end SearchStep

namespace Search

/-- What the tree is asked for steps that are tried up to the first that finds a file. -/
def rows (s : Settings) (t : FileTree) : List SearchStep → ProbeLog
  | [] => []
  | step :: steps => step.rows s t ++ if (step.found s t).isSome then [] else rows s t steps

def found (s : Settings) (t : FileTree) (steps : List SearchStep) : Option Path :=
  steps.findSome? (SearchStep.found s t)

/-- The search of a name without a memory: the rows, and the location. A name that is no bare one has
one candidate at most. -/
def plain (s : Settings) (t : FileTree) (name : String) (origin : Option Path) :
    ProbeLog × Option Location :=
  match Name.form name with
  | .url => ([], some (.url name))
  | .absolute => alone ⟨"absolute path", (Name.toPath name).anchor s.workingDir⟩
  | .relative => alone ⟨"relative path", (Path.ofString name).anchor (originDir s origin)⟩
  | .bare =>
    (rows s t (plan s name origin), (found s t (plan s name origin)).map Location.path)
where
  alone (step : SearchStep) : ProbeLog × Option Location :=
    (step.rows s t, (step.found s t).map Location.path)

end Search

/-! What a session remembers. -/

variable {s : Settings} {t : FileTree}

namespace ProbeCache

/-- An answer is known already and counted as a hit, or it is the tree's and known from then on. -/
theorem isFile_cases (cache : ProbeCache) (t : FileTree) (p : Path) :
    (∃ found, cache.answers.lookup p.key = some found ∧
      cache.isFile t p = ({ cache with hits := cache.hits + 1 }, found)) ∨
    cache.answers.lookup p.key = none ∧
      cache.isFile t p =
        ({ cache with answers := (p.key, t.isFile p) :: cache.answers }, t.isFile p) := by
  rw [isFile]
  cases known : cache.answers.lookup p.key with
  | some found => exact Or.inl ⟨found, rfl, rfl⟩
  | none => exact Or.inr ⟨rfl, rfl⟩

theorem isFile_snd (cache : ProbeCache) (t : FileTree) (p : Path) :
    (cache.isFile t p).2 = (cache.answers.lookup p.key).getD (t.isFile p) := by
  rcases cache.isFile_cases t p with ⟨found, known, same⟩ | ⟨fresh, same⟩
  · rw [same, known, Option.getD_some]
  · rw [same, fresh, Option.getD_none]

theorem lookup_isFile (cache : ProbeCache) (t : FileTree) (p : Path) (key : Path.Key) :
    (cache.isFile t p).1.answers.lookup key =
      if key = p.key then some (cache.isFile t p).2 else cache.answers.lookup key := by
  rcases cache.isFile_cases t p with ⟨found, known, same⟩ | ⟨fresh, same⟩
  · rw [same]
    split
    · next here => rw [here, known]
    · rfl
  · rw [same]
    dsimp only
    rw [List.lookup_cons]
    by_cases here : key = p.key
    · rw [if_pos here, beq_iff_eq.2 here]
    · rw [if_neg here, beq_eq_false_iff_ne.2 here]

/-- What is known of paths that are spelled by their segments is so in the tree. -/
def Remembers (cache : ProbeCache) (t : FileTree) : Prop :=
  ∀ p found, p.IsPlain → cache.answers.lookup p.key = some found → found = t.isFile p

theorem remembers_empty : empty.Remembers t := nofun

theorem isFile_plain {cache : ProbeCache} {p : Path} (remembers : cache.Remembers t)
    (plain : p.IsPlain) :
    (cache.isFile t p).1.Remembers t ∧ (cache.isFile t p).2 = t.isFile p := by
  have answer : (cache.isFile t p).2 = t.isFile p := by
    rw [isFile_snd]
    cases known : cache.answers.lookup p.key with
    | some found => exact remembers p found plain known
    | none => rfl
  refine ⟨fun q found hq known => ?_, answer⟩
  rw [lookup_isFile] at known
  split at known
  · next same =>
      rw [hq.eq_of_key plain same, ← answer]
      exact (Option.some.inj known).symm
  · exact remembers q found hq known

end ProbeCache

/-- `later` is a session that has gone on with `rows`, and remembers what is so in the tree. -/
structure ProbeSession.GoesOn (session : ProbeSession) (t : FileTree) (rows : ProbeLog)
    (later : ProbeSession) : Prop where
  log : later.log = session.log ++ rows
  remembers : later.cache.Remembers t

theorem ProbeSession.check_plain {session : ProbeSession} {p : Path}
    (remembers : session.cache.Remembers t) (plain : p.IsPlain) (label : String) :
    session.GoesOn t [t.probe label p] (session.check t p label).1 ∧
      (session.check t p label).2 = t.isFile p := by
  obtain ⟨kept, same⟩ := ProbeCache.isFile_plain remembers plain
  exact ⟨⟨by simp only [check, FileTree.probe, same], kept⟩, same⟩

/-- A candidate is verified by two probes at most, and the reading of its descriptor. -/
theorem Descriptor.verify_eq (extensions : List String) (session : ProbeSession) (t : FileTree)
    (candidate : Path) (label : String) :
    verify extensions session t candidate label =
      let direct :=
        if Name.hasExtension candidate.toString.toList extensions false then
          session.check t candidate label
        else (session, false)
      if direct.2 then (direct.1, .ok (some candidate))
      else
        let described := direct.1.check t (candidate.child fileName)
          (label ++ "/" ++ fileName)
        (described.1,
          if described.2 then
            (read t (candidate.child fileName)).map fun main =>
              some (candidate.child main).normalize
          else .ok none) := by
  unfold verify
  generalize (if Name.hasExtension candidate.toString.toList extensions false = true then
    session.check t candidate label else (session, false)) = direct
  obtain ⟨middle, answer⟩ := direct
  cases answer with
  | true => rfl
  | false =>
      dsimp only
      generalize middle.check t (candidate.child fileName)
        (label ++ "/" ++ fileName) = described
      obtain ⟨later, answer⟩ := described
      cases answer with
      | false => rfl
      | true => cases read t (candidate.child fileName) <;> rfl

namespace Search

/-- A descriptor that cannot be used is as good as none. -/
theorem verify_eq (session : ProbeSession) (step : SearchStep) :
    verify s session t step =
      let direct :=
        if step.isCode s then session.check t step.path step.label else (session, false)
      if direct.2 then (direct.1, some step.path)
      else
        let described :=
          direct.1.check t step.descriptor (step.label ++ "/" ++ Descriptor.fileName)
        (described.1, if described.2 then step.entry t else none) := by
  unfold verify SearchStep.isCode SearchStep.entry SearchStep.descriptor
  rw [Descriptor.verify_eq]
  dsimp only
  generalize (if Name.hasExtension step.path.toString.toList s.nativeExtensions false = true then
    session.check t step.path step.label else (session, false)) = direct
  generalize direct.1.check t (step.path.child Descriptor.fileName)
    (step.label ++ "/" ++ Descriptor.fileName) = described
  cases direct.2 with
  | true => rfl
  | false =>
      cases described.2 with
      | false => rfl
      | true => cases Descriptor.read t (step.path.child Descriptor.fileName) <;> rfl

theorem found_append (steps more : List SearchStep) :
    found s t (steps ++ more) = (found s t steps).or (found s t more) :=
  List.findSome?_append

/-- Steps behind others are tried only if those find nothing. -/
theorem rows_append_eq (steps more : List SearchStep) :
    rows s t (steps ++ more) =
      rows s t steps ++ if (found s t steps).isSome then [] else rows s t more := by
  induction steps with
  | nil => rfl
  | cons step steps ih =>
      rw [List.cons_append, rows, rows, found, List.findSome?_cons, ih]
      cases step.found s t with
      | some p => simp
      | none => simp [found]

/-- The paths that a step may ask for are spelled by their segments. -/
def Asks (s : Settings) (step : SearchStep) : Prop :=
  (step.isCode s = true → step.path.IsPlain) ∧ step.descriptor.IsPlain

theorem direct_plain {session : ProbeSession} {step : SearchStep}
    (remembers : session.cache.Remembers t) (asks : Asks s step) :
    let direct := if step.isCode s then session.check t step.path step.label else (session, false)
    session.GoesOn t (if step.isCode s then [t.probe step.label step.path] else []) direct.1 ∧
      direct.2 = (step.isCode s && t.isFile step.path) := by
  cases code : step.isCode s with
  | false => exact ⟨⟨by simp, remembers⟩, by simp⟩
  | true => simpa using ProbeSession.check_plain remembers (asks.1 code) step.label

theorem verify_plain {session : ProbeSession} {step : SearchStep}
    (remembers : session.cache.Remembers t) (asks : Asks s step) :
    session.GoesOn t (step.rows s t) (verify s session t step).1 ∧
      (verify s session t step).2 = step.found s t := by
  obtain ⟨first, answer⟩ := direct_plain remembers asks
  obtain ⟨second, answer'⟩ := ProbeSession.check_plain first.remembers asks.2
    (step.label ++ "/" ++ Descriptor.fileName)
  rw [verify_eq, SearchStep.rows, SearchStep.found]
  dsimp only
  rw [answer]
  cases step.isCode s && t.isFile step.path with
  | true => exact ⟨⟨by simp [first.log], first.remembers⟩, rfl⟩
  | false =>
      refine ⟨⟨?_, second.remembers⟩, ?_⟩
      · simp only [Bool.false_eq_true, ↓reduceIte, second.log, first.log, List.append_assoc]
      · simp only [Bool.false_eq_true, ↓reduceIte, answer']

theorem firstVerified_plain {session : ProbeSession} {steps : List SearchStep}
    (remembers : session.cache.Remembers t) (asks : ∀ step ∈ steps, Asks s step) :
    session.GoesOn t (rows s t steps) (firstVerified s session t steps).1 ∧
      (firstVerified s session t steps).2 = found s t steps := by
  induction steps generalizing session with
  | nil => exact ⟨⟨by simp [firstVerified, rows], remembers⟩, rfl⟩
  | cons step steps ih =>
      obtain ⟨here, answer⟩ := verify_plain remembers (asks step List.mem_cons_self)
      obtain ⟨later, answer'⟩ :=
        ih here.remembers fun step hstep => asks step (List.mem_cons_of_mem _ hstep)
      rw [firstVerified, rows, found, List.findSome?_cons, ← answer]
      generalize verify s session t step = outcome at here later answer'
      obtain ⟨middle, result⟩ := outcome
      cases result with
      | some p => exact ⟨⟨by simpa using here.log, here.remembers⟩, rfl⟩
      | none =>
          have log : middle.log = session.log ++ step.rows s t := here.log
          exact ⟨⟨by simp [later.log, log], later.remembers⟩, answer'⟩

theorem asks_child {dir : Path} {name : String} (plain : dir.IsPlain)
    (bare : Name.form name = .bare) (label : String) : Asks s ⟨label, dir.child name⟩ := by
  have fileName : Path.IsName (.ofString Descriptor.fileName) := ⟨by decide, by decide, by decide⟩
  by_cases some : name = ""
  · subst some
    constructor
    · intro code
      rw [SearchStep.isCode, Path.toString, PathText.toList_shown] at code
      rcases dir.child_empty with nothing | slash
      · rw [nothing] at code
        cases code
      · have shown : ((dir.child "").chars.map PathChar.shown).getLast? = Option.some '/' := by
          rw [List.getLast?_map, slash]
          rfl
        rw [Name.hasExtension_of_slash shown] at code
        cases code
    · rw [SearchStep.descriptor, Path.child_empty_child (by decide)]
      exact plain.child fileName
  · have named := plain.child (Name.isName_of_form_eq_bare bare some)
    exact ⟨fun _ => named, named.child fileName⟩

theorem asks_plain {step : SearchStep} (plain : step.path.IsPlain) : Asks s step :=
  ⟨fun _ => plain, plain.child ⟨by decide, by decide, by decide⟩⟩

/-- All steps of a plan look for the name in some directory. -/
theorem exists_child_of_mem_plan {name : String} {origin : Option Path} {step : SearchStep}
    (hstep : step ∈ plan s name origin) : ∃ dir : Path, dir.IsPlain ∧ step.path = dir.child name := by
  rw [plan_eq_roots, List.mem_map] at hstep
  obtain ⟨root, hroot, rfl⟩ := hstep
  exact ⟨root.path, (isNormal_of_mem_roots root hroot).isPlain, rfl⟩

theorem asks_plan {name : String} (bare : Name.form name = .bare) (origin : Option Path) :
    ∀ step ∈ plan s name origin, Asks s step := by
  intro step hstep
  obtain ⟨dir, plain, path⟩ := exists_child_of_mem_plan hstep
  obtain ⟨label, _⟩ := step
  cases path
  exact asks_child plain bare label

theorem asks_candidates (s : Settings) (name : String) (origin : Option Path) :
    ∀ step ∈ candidates s name origin, Asks s step := by
  intro step hstep
  rw [candidates] at hstep
  split at hstep
  · cases hstep
  · rw [List.mem_singleton.1 hstep]
    exact asks_plain (Path.isNormal_anchor _ _).isPlain
  · rw [List.mem_singleton.1 hstep]
    exact asks_plain (Path.isNormal_anchor _ _).isPlain
  · next bare => exact asks_plan bare origin step hstep

theorem candidates_url {name : String} (url : Name.isUrl name = true) (origin : Option Path) :
    candidates s name origin = [] := by
  rw [candidates, Name.form_eq_url_iff.2 url]

end Search

theorem search_log (s : Settings) (t : FileTree) (name : String) (origin : Option Path) :
    (search s .empty t name origin).1.log =
      Search.rows s t (Search.candidates s name origin) := by
  rw [search]
  split
  · next url =>
      rw [Search.candidates_url url]
      rfl
  · exact (Search.firstVerified_plain ProbeCache.remembers_empty
      (Search.asks_candidates s name origin)).1.log

theorem search_location (s : Settings) (t : FileTree) (name : String) (origin : Option Path) :
    (search s .empty t name origin).2 =
      if Name.isUrl name then some (.url name)
      else (Search.found s t (Search.candidates s name origin)).map Location.path := by
  rw [search]
  split
  · rfl
  · exact congrArg (Option.map Location.path) (Search.firstVerified_plain
      ProbeCache.remembers_empty (Search.asks_candidates s name origin)).2

/-- A session that starts with nothing finds what the search without a memory finds, and its log has
the same rows. -/
theorem search_eq_plain (s : Settings) (t : FileTree) (name : String) (origin : Option Path) :
    ((search s .empty t name origin).1.log, (search s .empty t name origin).2) =
      Search.plain s t name origin := by
  rw [search_log, search_location, Search.plain, Search.candidates]
  cases form : Name.form name with
  | url => simp [Name.form_eq_url_iff.1 form, Search.rows]
  | absolute | relative | bare =>
      have other : ¬ Name.isUrl name = true := by simp [← Name.form_eq_url_iff, form]
      simp [other, Search.plain.alone, Search.rows, Search.found, List.findSome?_singleton]

/-- Two roots that are one directory: the second is looked up in the memory. -/
def oneRoot : Settings :=
  { Settings.default (fun _ => none) with
    workingDir := Path.ofString "/work"
    installRoot := Path.ofString "/work"
    globalPaths := [Path.ofString "/work/", Path.ofString "./."] }

example : (search oneRoot .empty FileTree.empty "a.js" none).1.cache.hits = 4 ∧
    (search oneRoot .empty FileTree.empty "a.js" none).1.log =
      (Search.plain oneRoot FileTree.empty "a.js" none).1 := by
  decide +kernel

end ScriptImports
