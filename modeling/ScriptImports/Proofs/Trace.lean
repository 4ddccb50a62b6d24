import ScriptImports.Proofs.Verification

/-!
What the trace of a search shows. The steps of a plan are taken in order, up to the first that
verifies, and each leaves a row for its own path, where the name has a code suffix, and a row for the
descriptor below it, unless the path itself was found. A row that is found and is not the last of a
search that succeeded is that of a descriptor which could not be used.
-/
namespace ScriptImports

variable {s : Settings} {t : FileTree}

/-- Why a package descriptor that is there names no entry file. -/
inductive Descriptor.Unusable (t : FileTree) (p : Path) : Prop
  | unreadable {fault : Fault} : t.readText p = .error fault → Unusable t p
  | malformed {text : String} : t.readText p = .ok text → main? p text = .error (.malformed p) →
    Unusable t p
  | noMain {text : String} : t.readText p = .ok text → main? p text = .error (.noMain p) →
    Unusable t p

theorem Descriptor.main?_eq_error {p : Path} {text : String} {fault : DescriptorFault}
    (h : main? p text = .error fault) : fault = .malformed p ∨ fault = .noMain p := by
  rw [main?] at h
  split at h
  · cases h
    exact Or.inl rfl
  · split at h
    · cases h
      exact Or.inr rfl
    · cases h
  · cases h
    exact Or.inr rfl

theorem Descriptor.unusable_of_read {p : Path} {fault : DescriptorFault}
    (h : read t p = .error fault) : Unusable t p := by
  rw [read] at h
  split at h
  · next text readable =>
      cases main?_eq_error h with
      | inl malformed => exact .malformed readable (malformed ▸ h)
      | inr noMain => exact .noMain readable (noMain ▸ h)
  · next unreadable => exact .unreadable unreadable

namespace SearchStep

/-- The rows of a step for a name that has a code suffix, or that has none. -/
def shows (t : FileTree) (code : Bool) (step : SearchStep) : ProbeLog :=
  (if code then [⟨step.label, step.path.toString, t.isFile step.path⟩] else []) ++
  if code && t.isFile step.path then []
  else
    [⟨step.label ++ "/" ++ Descriptor.fileName, step.descriptor.toString,
      t.isFile step.descriptor⟩]

/-- The row shows a descriptor below the step that is there and cannot be used. -/
def Rejects (t : FileTree) (step : SearchStep) (row : ProbeRow) : Prop :=
  row = ⟨step.label ++ "/" ++ Descriptor.fileName, step.descriptor.toString, true⟩ ∧
    Descriptor.Unusable t step.descriptor

variable {step : SearchStep}

theorem rows_eq_shows (s : Settings) (t : FileTree) (step : SearchStep) :
    step.rows s t = step.shows t (step.isCode s) := rfl

theorem length_shows (code : Bool) :
    (step.shows t code).length = 1 ∨ (step.shows t code).length = 2 := by
  rw [shows]
  cases code <;> cases t.isFile step.path <;> simp

/-- A step that verifies shows it in its last row, and finds nothing before. -/
theorem rows_of_verifies {p : Path} (verifies : step.Verifies s t p) :
    ∃ rows last, step.rows s t = rows ++ [last] ∧ last.found = true ∧
      ∀ row ∈ rows, row.found = false := by
  cases verifies with
  | direct code file =>
      refine ⟨[], t.probe step.label step.path, ?_, file, nofun⟩
      simp [rows, code, file]
  | redirected other redirects =>
      refine ⟨if step.isCode s then [t.probe step.label step.path] else [],
        t.probe (step.label ++ "/" ++ Descriptor.fileName) step.descriptor, ?_, redirects.1, ?_⟩
      · simp [rows, other]
      · intro row hrow
        split at hrow
        · next code =>
            rw [code, Bool.true_and] at other
            rw [List.mem_singleton.1 hrow]
            exact other
        · cases hrow

/-- A step that does not verify finds nothing but a descriptor that cannot be used. -/
theorem rejects_of_not_verifies (fails : ∀ p, ¬ step.Verifies s t p) :
    ∀ row ∈ step.rows s t, row.found = true → step.Rejects t row := by
  intro row hrow there
  have other : (step.isCode s && t.isFile step.path) = false := by
    rw [← Bool.not_eq_true, Bool.and_eq_true]
    exact fun direct => fails _ (.direct direct.1 direct.2)
  rw [rows, other, List.mem_append] at hrow
  cases hrow with
  | inl own =>
      split at own
      · next code =>
          rw [List.mem_singleton.1 own] at there
          rw [code, Bool.true_and] at other
          exact absurd there (Bool.eq_false_iff.1 other)
      · cases own
  | inr below =>
      rw [if_neg (by simp), List.mem_singleton] at below
      rw [below] at there ⊢
      have described : t.isFile step.descriptor = true := there
      refine ⟨by rw [FileTree.probe, described], ?_⟩
      cases read : Descriptor.read t step.descriptor with
      | error fault => exact Descriptor.unusable_of_read read
      | ok main => exact absurd (.redirected other ⟨described, main, read, rfl⟩) (fails _)

end SearchStep

namespace Search

variable {tried before after : List SearchStep}

/-- How a search ends that has tried some steps and not the others: with the first step that
verifies, or with all steps tried and none found. -/
inductive Ends (s : Settings) (t : FileTree) (tried after : List SearchStep) : Option Location → Prop
  | hit {before : List SearchStep} {step : SearchStep} {p : Path} : tried = before ++ [step] →
    step.Verifies s t p → (∀ earlier ∈ before, ∀ q, ¬ earlier.Verifies s t q) →
    Ends s t tried after (some (.path p))
  | exhausted : after = [] → (∀ step ∈ tried, ∀ q, ¬ step.Verifies s t q) →
    Ends s t tried after none

/-- Steps that do not verify are passed over, with all their rows. -/
theorem rows_append (fails : ∀ step ∈ before, ∀ p, ¬ step.Verifies s t p)
    (more : List SearchStep) :
    rows s t (before ++ more) = before.flatMap (SearchStep.rows s t) ++ rows s t more := by
  induction before with
  | nil => rfl
  | cons step before ih =>
      have none : step.found s t = none := by
        rw [Option.eq_none_iff_forall_ne_some]
        exact fun p found => fails step List.mem_cons_self p (SearchStep.found_eq_some_iff.1 found)
      rw [List.cons_append, rows, none, List.flatMap_cons, List.append_assoc,
        ih fun step hstep => fails step (List.mem_cons_of_mem _ hstep)]
      rfl

/-- Of any steps, a search tries those up to its end, and its rows are theirs. -/
theorem exists_ends (s : Settings) (t : FileTree) (steps : List SearchStep) :
    ∃ tried after, steps = tried ++ after ∧
      rows s t steps = tried.flatMap (SearchStep.rows s t) ∧
      Ends s t tried after ((found s t steps).map Location.path) := by
  cases result : found s t steps with
  | none =>
      have fails : ∀ step ∈ steps, ∀ p, ¬ step.Verifies s t p := by
        intro step hstep p verifies
        obtain ⟨q, first⟩ := exists_first_of_mem hstep verifies
        rw [found_eq_some_iff.2 first] at result
        cases result
      refine ⟨steps, [], (List.append_nil _).symm, ?_, .exhausted rfl fails⟩
      have all := rows_append fails []
      rwa [List.append_nil, rows, List.append_nil] at all
  | some p =>
      obtain ⟨before, step, after, rfl, verifies, fails⟩ := found_eq_some_iff.1 result
      refine ⟨before ++ [step], after, by simp, ?_, .hit rfl verifies fails⟩
      rw [rows_append fails, rows, SearchStep.found_eq_some_iff.2 verifies]
      simp

/-- What is found in steps that do not verify is a descriptor that cannot be used. -/
theorem rejects_of_mem_rows (fails : ∀ step ∈ before, ∀ p, ¬ step.Verifies s t p) :
    ∀ row ∈ before.flatMap (SearchStep.rows s t), row.found = true →
      ∃ step ∈ before, step.Rejects t row := by
  intro row hrow there
  obtain ⟨step, hstep, ofStep⟩ := List.mem_flatMap.1 hrow
  exact ⟨step, hstep, SearchStep.rejects_of_not_verifies (fails step hstep) row ofStep there⟩

theorem Ends.rejects (ends : Ends s t tried after none) :
    ∀ row ∈ tried.flatMap (SearchStep.rows s t), row.found = true →
      ∃ step ∈ tried, step.Rejects t row := by
  cases ends with
  | exhausted _ fails => exact rejects_of_mem_rows fails

/-- A search that succeeds finds its last row, and before it only descriptors that cannot be used. -/
theorem Ends.last_found {location : Location} (ends : Ends s t tried after (some location)) :
    ∃ rows last, tried.flatMap (SearchStep.rows s t) = rows ++ [last] ∧ last.found = true ∧
      ∀ row ∈ rows, row.found = true → ∃ step ∈ tried, step.Rejects t row := by
  cases ends with
  | @hit before step _ same verifies fails =>
      obtain ⟨rows, last, ofStep, there, nothing⟩ := SearchStep.rows_of_verifies verifies
      refine ⟨before.flatMap (SearchStep.rows s t) ++ rows, last, ?_, there, ?_⟩
      · rw [same, List.flatMap_append, List.flatMap_singleton, ofStep, List.append_assoc]
      · intro row hrow found
        cases List.mem_append.1 hrow with
        | inl earlier =>
            obtain ⟨passed, hpassed, rejects⟩ := rejects_of_mem_rows fails row earlier found
            exact ⟨passed, by simp [same, hpassed], rejects⟩
        | inr own =>
            rw [nothing row own] at found
            cases found

theorem rows_eq_shows_of_plan {name : String} {origin : Option Path} {after : List SearchStep}
    (bare : Name.form name = .bare) (planned : plan s name origin = tried ++ after) :
    tried.flatMap (SearchStep.rows s t) =
      tried.flatMap
        (SearchStep.shows t (Name.hasExtension name.toList s.nativeExtensions false)) := by
  rw [List.flatMap_def, List.flatMap_def]
  apply congrArg List.flatten
  apply List.map_congr_left
  intro step hstep
  rw [SearchStep.rows_eq_shows, isCode_of_mem_plan bare (planned ▸ List.mem_append_left _ hstep)]

/-- A name that is absolute or relative has one candidate. -/
theorem exists_candidate {name : String} (origin : Option Path)
    (alone : Name.form name = .absolute ∨ Name.form name = .relative) :
    ∃ step, candidates s name origin = [step] := by
  rcases alone with form | form <;> exact ⟨_, by rw [candidates, form]⟩

theorem rows_singleton (step : SearchStep) : rows s t [step] = step.rows s t := by
  simp [rows]

end Search

theorem search_ends {name : String} (origin : Option Path) (other : Name.form name ≠ .url) :
    ∃ tried after, Search.candidates s name origin = tried ++ after ∧
      (search s .empty t name origin).1.log = tried.flatMap (SearchStep.rows s t) ∧
      Search.Ends s t tried after (search s .empty t name origin).2 := by
  have url : ¬ Name.isUrl name = true := by rwa [← Name.form_eq_url_iff]
  rw [search_log, search_location, if_neg url]
  exact Search.exists_ends s t (Search.candidates s name origin)

/-- The trace of a bare name has the rows of its plan, in order and up to the step that is found; the
suffix that makes a step show its own path is that of the name. Other names that are no URLs have one
candidate, and one or two rows about it. A search that succeeds finds its last row; any other row that
is found is one of a descriptor that cannot be used. -/
theorem search_trace (s : Settings) (t : FileTree) (name : String) (origin : Option Path) :
    let found := (search s .empty t name origin).2
    let trace := (search s .empty t name origin).1.log
    (Name.form name = .bare →
      ∃ tried after, Search.plan s name origin = tried ++ after ∧
        Search.Ends s t tried after found ∧
        trace = tried.flatMap
          (SearchStep.shows t (Name.hasExtension name.toList s.nativeExtensions false))) ∧
    (Name.form name = .absolute ∨ Name.form name = .relative →
      ∃ step, Search.candidates s name origin = [step] ∧ trace = step.shows t (step.isCode s) ∧
        (trace.length = 1 ∨ trace.length = 2)) ∧
    (Name.form name ≠ .url →
      (found = none → ∀ row ∈ trace, row.found = true →
        ∃ step ∈ Search.candidates s name origin, step.Rejects t row) ∧
      (found.isSome = true → ∃ rows last, trace = rows ++ [last] ∧ last.found = true ∧
        ∀ row ∈ rows, row.found = true →
          ∃ step ∈ Search.candidates s name origin, step.Rejects t row)) := by
  intro found trace
  refine ⟨?_, ?_, ?_⟩
  · intro bare
    obtain ⟨tried, after, planned, rows, ends⟩ :=
      @search_ends s t name origin (by rw [bare]; nofun)
    rw [Search.candidates_bare bare] at planned
    exact ⟨tried, after, planned, ends, rows.trans (Search.rows_eq_shows_of_plan bare planned)⟩
  · intro alone
    obtain ⟨step, candidate⟩ := @Search.exists_candidate s name origin alone
    have rows : trace = step.shows t (step.isCode s) := by
      rw [← SearchStep.rows_eq_shows, ← Search.rows_singleton, ← candidate]
      exact search_log s t name origin
    exact ⟨step, candidate, rows, rows ▸ SearchStep.length_shows _⟩
  · intro other
    obtain ⟨tried, after, candidates, rows, ends⟩ := @search_ends s t name origin other
    have among {row : ProbeRow} (rejected : ∃ step ∈ tried, step.Rejects t row) :
        ∃ step ∈ Search.candidates s name origin, step.Rejects t row := by
      obtain ⟨step, hstep, rejects⟩ := rejected
      exact ⟨step, candidates ▸ List.mem_append_left _ hstep, rejects⟩
    constructor
    · intro nothing row hrow there
      have exhausted : Search.Ends s t tried after none := nothing ▸ ends
      exact among (exhausted.rejects row (rows ▸ hrow) there)
    · intro something
      obtain ⟨location, result⟩ := Option.isSome_iff_exists.1 something
      have hit : Search.Ends s t tried after (some location) := result ▸ ends
      obtain ⟨earlier, last, split, there, rejected⟩ := hit.last_found
      exact ⟨earlier, last, rows.trans split, there, fun row hrow h => among (rejected row hrow h)⟩

/-- In the first root the descriptor of the package cannot be parsed, in the second one it can. -/
def brokenPackage : FileTree :=
  (FileTree.empty.write (Path.ofString "/one/left-pad/package.json") (.file "\x7b main: ".toUTF8)).write
    (Path.ofString "/two/left-pad/package.json") Resolution.entryFile

theorem search_trace_brokenPackage :
    (∃ tried after, Search.plan Resolution.twoRoots "left-pad" none = tried ++ after ∧
      (search Resolution.twoRoots .empty brokenPackage "left-pad" none).1.log =
        tried.flatMap (SearchStep.shows brokenPackage false)) ∧
    (∃ rows last,
      (search Resolution.twoRoots .empty brokenPackage "left-pad" none).1.log = rows ++ [last] ∧
        last.found = true ∧ ∀ row ∈ rows, row.found = true →
          ∃ step ∈ Search.candidates Resolution.twoRoots "left-pad" none,
            step.Rejects brokenPackage row) ∧
    (∃ step, Search.candidates Resolution.twoRoots "/one/left-pad" none = [step]) ∧
    ∀ row ∈ (search Resolution.twoRoots .empty brokenPackage "/one/left-pad" none).1.log,
      row.found = true → ∃ step ∈ Search.candidates Resolution.twoRoots "/one/left-pad" none,
        step.Rejects brokenPackage row := by
  obtain ⟨planned, _, rows⟩ := search_trace Resolution.twoRoots brokenPackage "left-pad" none
  obtain ⟨_, alone, rows'⟩ := search_trace Resolution.twoRoots brokenPackage "/one/left-pad" none
  refine ⟨?_, (rows (by decide)).2 (by decide +kernel), ?_,
    (rows' (by decide)).1 (by decide +kernel)⟩
  · obtain ⟨tried, after, same, _, shown⟩ := planned (by decide)
    exact ⟨tried, after, same, shown⟩
  · obtain ⟨step, candidate, _⟩ := alone (Or.inl (by decide))
    exact ⟨step, candidate⟩

end ScriptImports
