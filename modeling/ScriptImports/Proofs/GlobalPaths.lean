import ScriptImports.Proofs.Trace

/-!
More global paths. They are searched after everything else, so that what is found without them is
found in the same way with them, by the same probes; a search that found nothing goes on in them, and
they are all that it can still find. Names that are not bare, and scripts, know nothing of them.
-/
namespace ScriptImports

/-- The settings with further global paths after those that are there. -/
def Settings.addGlobalPaths (s : Settings) (added : List Path) : Settings :=
  { s with globalPaths := s.globalPaths ++ added }

variable {s : Settings} {t : FileTree}

namespace Search

/-- The candidate for a name in a global path. -/
def globalStep (s : Settings) (name : String) (path : Path) : SearchStep :=
  ⟨"NODE_PATH", (path.anchor s.workingDir).child name⟩

theorem plan_addGlobalPaths (s : Settings) (added : List Path) (name : String)
    (origin : Option Path) :
    plan (s.addGlobalPaths added) name origin =
      plan s name origin ++ added.map (globalStep s name) := by
  have globals : (s.globalPaths ++ added).map (globalStep s name) =
      s.globalPaths.map (globalStep s name) ++ added.map (globalStep s name) := List.map_append
  have last (before : List SearchStep) :
      before ++ (s.globalPaths ++ added).map (globalStep s name) =
        before ++ s.globalPaths.map (globalStep s name) ++ added.map (globalStep s name) := by
    rw [globals, List.append_assoc]
  exact last _

theorem candidates_addGlobalPaths (added : List Path) {name : String}
    (other : Name.form name ≠ .bare) (origin : Option Path) :
    candidates (s.addGlobalPaths added) name origin = candidates s name origin := by
  rw [candidates, candidates]
  cases form : Name.form name with
  | url | absolute | relative => rfl
  | bare => exact absurd form other

/-- A step knows nothing of the global paths. -/
theorem found_addGlobalPaths (added : List Path) (steps : List SearchStep) :
    found (s.addGlobalPaths added) t steps = found s t steps := rfl

theorem rows_addGlobalPaths (added : List Path) (steps : List SearchStep) :
    rows (s.addGlobalPaths added) t steps = rows s t steps := by
  induction steps with
  | nil => rfl
  | cons step steps ih =>
      rw [rows, rows, ih]
      rfl

end Search

namespace Resolution

variable {r : Reference}

theorem resolve_script_addGlobalPaths (added : List Path)
    (script : Name.kind s.nativeExtensions s.scriptExtensions r.name = .script) :
    resolve (s.addGlobalPaths added) t r = resolve s t r := by
  have script' : Name.kind (s.addGlobalPaths added).nativeExtensions
      (s.addGlobalPaths added).scriptExtensions r.name = .script := script
  rw [resolve, resolve, script, script']
  rfl

/-- The outcome is the same, unless it is that a bare name has not been found. The search then goes on
in the added paths. -/
theorem resolve_addGlobalPaths_cases (s : Settings) (t : FileTree) (r : Reference)
    (added : List Path) :
    resolve (s.addGlobalPaths added) t r = resolve s t r ∨
    Name.form r.name = .bare ∧
      Name.kind s.nativeExtensions s.scriptExtensions r.name = .native ∧
      ∃ rows, resolve s t r = .error (r.failure (.unresolved r.name rows)) ∧
        let steps := added.map (Search.globalStep s r.name)
        resolve (s.addGlobalPaths added) t r =
          match Search.found s t steps with
          | some p => .ok ⟨⟨.native, .path p⟩, rows ++ Search.rows s t steps⟩
          | none => .error (r.failure (.unresolved r.name (rows ++ Search.rows s t steps))) := by
  cases kind : Name.kind s.nativeExtensions s.scriptExtensions r.name with
  | script => exact Or.inl (resolve_script_addGlobalPaths added kind)
  | native =>
      have kind' : Name.kind (s.addGlobalPaths added).nativeExtensions
          (s.addGlobalPaths added).scriptExtensions r.name = .native := kind
      rw [resolve_native kind, resolve_native kind', Search.found_addGlobalPaths,
        Search.rows_addGlobalPaths]
      by_cases bare : Name.form r.name = .bare
      · have url : ¬ Name.isUrl r.name = true := by simp [← Name.form_eq_url_iff, bare]
        rw [Search.candidates_bare bare, Search.candidates_bare bare, Search.plan_addGlobalPaths,
          Search.found_append, Search.rows_append_eq, if_neg url, if_neg url]
        cases found : Search.found s t (Search.plan s r.name r.file) with
        | some p => exact Or.inl (by simp)
        | none =>
            refine Or.inr ⟨bare, rfl, _, rfl, ?_⟩
            rw [Option.none_or, Option.isSome_none, if_neg (by simp)]
            intro steps
            cases Search.found s t (added.map (Search.globalStep s r.name)) <;> rfl
      · rw [Search.candidates_addGlobalPaths added bare]
        exact Or.inl rfl

/-- With global paths added at the end, whatever was found is found again, with the same trace. What
was not found shows the trace that it had and then that of the added paths, and it is only found in
the first of these that verifies. Names that are not bare, and scripts, fail as they did. -/
theorem resolve_addGlobalPaths (s : Settings) (t : FileTree) (r : Reference) (added : List Path) :
    (∀ resolution, resolve s t r = .ok resolution →
      resolve (s.addGlobalPaths added) t r = .ok resolution) ∧
    ∀ failure, resolve s t r = .error failure →
      shown (resolve s t r) <+: shown (resolve (s.addGlobalPaths added) t r) ∧
      (∀ resolution, resolve (s.addGlobalPaths added) t r = .ok resolution →
        ∃ p, resolution.candidate = ⟨.native, .path p⟩ ∧
          Search.FirstVerifies s t (added.map (Search.globalStep s r.name)) p) ∧
      (Name.form r.name ≠ .bare ∨
          Name.kind s.nativeExtensions s.scriptExtensions r.name = .script →
        resolve (s.addGlobalPaths added) t r = .error failure) := by
  rcases resolve_addGlobalPaths_cases s t r added with same | ⟨bare, native, rows, fails, goesOn⟩
  · rw [same]
    refine ⟨fun _ h => h, fun failure h => ⟨List.prefix_refl _, fun resolution ok => ?_, fun _ => h⟩⟩
    rw [h] at ok
    cases ok
  · rw [fails, goesOn]
    refine ⟨nofun, fun failure h => ⟨?_, fun resolution ok => ?_, fun other => ?_⟩⟩
    · cases Search.found s t (added.map (Search.globalStep s r.name)) <;>
        exact List.prefix_append _ _
    · cases found : Search.found s t (added.map (Search.globalStep s r.name)) with
      | none =>
          rw [found] at ok
          cases ok
      | some p =>
          rw [found] at ok
          cases ok
          exact ⟨p, rfl, Search.found_eq_some_iff.1 found⟩
    · rcases other with other | script
      · exact absurd bare other
      · rw [native] at script
        cases script

/-- A package that is not found without the two roots, and is found in them; then one more root is
added, where it is not looked for. Read as a relative name it is not found in any of them. -/
theorem resolve_addGlobalPaths_twoRoots :
    let narrow := Settings.default fun _ => none
    let added := [Path.ofString "/one", Path.ofString "/two"]
    (shown (resolve narrow halfInstalled ⟨"left-pad", none, 1⟩) <+:
      shown (resolve (narrow.addGlobalPaths added) halfInstalled ⟨"left-pad", none, 1⟩)) ∧
    (∃ p, Search.FirstVerifies narrow halfInstalled
      (added.map (Search.globalStep narrow "left-pad")) p) ∧
    (∃ trace, resolve (twoRoots.addGlobalPaths [Path.ofString "/three"]) halfInstalled
      ⟨"left-pad", none, 1⟩ = .ok ⟨⟨.native, .path (Path.ofString "/one/left-pad/x.js")⟩, trace⟩) ∧
    resolve (narrow.addGlobalPaths added) halfInstalled ⟨"./left-pad", none, 1⟩ =
      resolve narrow halfInstalled ⟨"./left-pad", none, 1⟩ := by
  intro narrow added
  have fails (name : String)
      (nothing : (resolve narrow halfInstalled ⟨name, none, 1⟩).isOk = false) :
      ∃ failure, resolve narrow halfInstalled ⟨name, none, 1⟩ = .error failure := by
    cases h : resolve narrow halfInstalled ⟨name, none, 1⟩ with
    | error failure => exact ⟨failure, rfl⟩
    | ok resolution => rw [h] at nothing; cases nothing
  obtain ⟨trace, found⟩ := resolve_halfInstalled
  obtain ⟨failure, bare⟩ := fails "left-pad" (by decide +kernel)
  obtain ⟨failure', relative⟩ := fails "./left-pad" (by decide +kernel)
  have goesOn := (resolve_addGlobalPaths narrow halfInstalled ⟨"left-pad", none, 1⟩ added).2 _ bare
  obtain ⟨p, _, first⟩ := goesOn.2.1 _ found
  refine ⟨goesOn.1, ⟨p, first⟩, ⟨trace, ?_⟩, ?_⟩
  · exact (resolve_addGlobalPaths twoRoots halfInstalled _ [Path.ofString "/three"]).1 _ found
  · rw [relative]
    exact ((resolve_addGlobalPaths narrow halfInstalled _ added).2 _ relative).2.2
      (Or.inl (by decide))

end Resolution

end ScriptImports
