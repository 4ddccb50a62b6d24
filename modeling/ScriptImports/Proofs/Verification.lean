import ScriptImports.Proofs.Certificate

/-!
What it means that a native module was found. Its step is the first that verifies, and a step
verifies by a code file at its own path or by a package descriptor below it. The entry file of a
descriptor is taken as it is named, so that only a module that was found without one is known to
exist. A step looks at the suffix of the name as it stands: a `.txt` at the end, which is passed over
where a name is classified, is not passed over here.
-/
namespace ScriptImports

variable {s : Settings} {t : FileTree}

/-- The descriptor of a step is a file that names the entry file `p`. -/
def SearchStep.Redirects (t : FileTree) (step : SearchStep) (p : Path) : Prop :=
  t.isFile step.descriptor = true ∧
    ∃ main, Descriptor.read t step.descriptor = .ok main ∧ p = (step.path.child main).normalize

/-- What a step comes to: its own path, where that is a code file, or else what its descriptor
names. -/
inductive SearchStep.Verifies (s : Settings) (t : FileTree) (step : SearchStep) : Path → Prop
  | direct : step.isCode s = true → t.isFile step.path = true → Verifies s t step step.path
  | redirected {p : Path} : (step.isCode s && t.isFile step.path) = false →
    step.Redirects t p → Verifies s t step p

namespace SearchStep

variable {step : SearchStep} {p : Path}

theorem found_eq_some_iff : step.found s t = some p ↔ step.Verifies s t p := by
  constructor
  · intro h
    rw [found] at h
    split at h
    · next direct =>
        cases h
        rw [Bool.and_eq_true] at direct
        exact .direct direct.1 direct.2
    · next other =>
        split at h
        · next described =>
            rw [entry, Option.map_eq_some_iff] at h
            obtain ⟨main, read, rfl⟩ := h
            refine .redirected (Bool.eq_false_iff.2 other) ⟨described, main, ?_, rfl⟩
            cases result : Descriptor.read t step.descriptor with
            | error fault => rw [result] at read; cases read
            | ok main' => rw [result] at read; cases read; rfl
        · cases h
  · intro verifies
    cases verifies with
    | direct code file => rw [found, code, file]; rfl
    | redirected other redirects =>
        obtain ⟨described, main, read, rfl⟩ := redirects
        rw [found, other, described, entry, read]
        rfl

theorem Verifies.isFile_or_redirects (verifies : step.Verifies s t p) :
    t.isFile p = true ∨ step.Redirects t p := by
  cases verifies with
  | direct _ file => exact Or.inl file
  | redirected _ redirects => exact Or.inr redirects

/-- Without a code suffix a step has nothing but its descriptor. -/
theorem Verifies.redirects (verifies : step.Verifies s t p) (other : step.isCode s = false) :
    step.Redirects t p := by
  cases verifies with
  | direct code _ => rw [other] at code; cases code
  | redirected _ redirects => exact redirects

end SearchStep

namespace Search

variable {steps : List SearchStep} {p : Path}

/-- The first of `steps` that verifies at all comes to `p`. -/
def FirstVerifies (s : Settings) (t : FileTree) (steps : List SearchStep) (p : Path) : Prop :=
  ∃ before step after, steps = before ++ step :: after ∧ step.Verifies s t p ∧
    ∀ earlier ∈ before, ∀ q, ¬ earlier.Verifies s t q

theorem found_eq_some_iff : found s t steps = some p ↔ FirstVerifies s t steps p := by
  rw [found, List.findSome?_eq_some_iff]
  simp only [FirstVerifies, SearchStep.found_eq_some_iff, Option.eq_none_iff_forall_ne_some, Ne]

/-- A step that verifies is found, unless an earlier one is. -/
theorem exists_first_of_mem {step : SearchStep} (hstep : step ∈ steps)
    (verifies : step.Verifies s t p) : ∃ q, FirstVerifies s t steps q := by
  cases none : found s t steps with
  | some q => exact ⟨q, found_eq_some_iff.1 none⟩
  | none =>
      have nothing := List.findSome?_eq_none_iff.1 none step hstep
      rw [SearchStep.found_eq_some_iff.2 verifies] at nothing
      cases nothing

theorem FirstVerifies.append (first : FirstVerifies s t steps p) (more : List SearchStep) :
    FirstVerifies s t (steps ++ more) p := by
  obtain ⟨before, step, after, rfl, verifies, others⟩ := first
  exact ⟨before, step, after ++ more, by simp, verifies, others⟩

theorem candidates_bare {name : String} (bare : Name.form name = .bare) (origin : Option Path) :
    candidates s name origin = plan s name origin := by
  rw [candidates, bare]

/-- The steps of a plan have the suffix of the name. -/
theorem isCode_of_mem_plan {name : String} {origin : Option Path} {step : SearchStep}
    (bare : Name.form name = .bare) (hstep : step ∈ plan s name origin) :
    step.isCode s = Name.hasExtension name.toList s.nativeExtensions false := by
  obtain ⟨dir, _, path⟩ := exists_child_of_mem_plan hstep
  rw [SearchStep.isCode, path, Name.hasExtension_child dir bare]

end Search

namespace Resolution

variable {r : Reference} {p : Path} {trace : ProbeLog}

/-- A native module on the disk is what the search of its name finds. -/
theorem resolve_path_iff
    (native : Name.kind s.nativeExtensions s.scriptExtensions r.name = .native) :
    (∃ trace, resolve s t r = .ok ⟨⟨.native, .path p⟩, trace⟩) ↔
      Search.FirstVerifies s t (Search.candidates s r.name r.file) p := by
  rw [resolve_native native, ← Search.found_eq_some_iff]
  cases url : Name.isUrl r.name with
  | true =>
      have none : Search.found s t (Search.candidates s r.name r.file) = none := by
        rw [Search.candidates_url url]
        rfl
      simp [none]
  | false =>
      cases Search.found s t (Search.candidates s r.name r.file) <;> simp

theorem kind_of_hasExtension {native : List String} (script : List String) {name : String}
    (h : Name.hasExtension name.toList native true = true) :
    Name.kind native script name = .native :=
  if_pos h

theorem kind_of_resolve {c : Candidate} (h : resolve s t r = .ok ⟨c, trace⟩) :
    Name.kind s.nativeExtensions s.scriptExtensions r.name = c.kind := by
  rw [resolve] at h
  cases kind : Name.kind s.nativeExtensions s.scriptExtensions r.name <;>
    · rw [kind] at h
      dsimp only at h
      split at h
      · cases h
        rfl
      · cases h

/-- Two roots that have a package of one name. -/
def twoRoots : Settings :=
  { Settings.default (fun _ => none) with
    globalPaths := [Path.ofString "/one", Path.ofString "/two"] }

def entryFile : Node := .file "\x7b\"main\": \"x.js\"\x7d".toUTF8

/-- In the first root the entry file of the package is missing, in the second one it is there. -/
def halfInstalled : FileTree :=
  ((FileTree.empty.write (Path.ofString "/one/left-pad/package.json") entryFile).write
    (Path.ofString "/two/left-pad/package.json") entryFile).write
    (Path.ofString "/two/left-pad/x.js") (.file "export default 1".toUTF8)

theorem resolve_halfInstalled :
    ∃ trace, resolve twoRoots halfInstalled ⟨"left-pad", none, 1⟩ =
      .ok ⟨⟨.native, .path (Path.ofString "/one/left-pad/x.js")⟩, trace⟩ := by
  rw [resolve_path_iff (by decide), ← Search.found_eq_some_iff]
  decide +kernel

/-- The package without an entry file is taken, and hides the one with it. -/
theorem resolve_unverified :
    (∃ trace, resolve twoRoots halfInstalled ⟨"left-pad", none, 1⟩ =
      .ok ⟨⟨.native, .path (Path.ofString "/one/left-pad/x.js")⟩, trace⟩) ∧
    halfInstalled.isFile (Path.ofString "/one/left-pad/x.js") = false ∧
    halfInstalled.isFile (Path.ofString "/two/left-pad/x.js") = true := by
  refine ⟨resolve_halfInstalled, ?_, ?_⟩
  · decide +kernel
  · decide +kernel

/-- A native module on the disk is what the first step that verifies comes to. It is a file, unless
it is the entry file that a descriptor names. -/
theorem resolve_verified {s : Settings} {t : FileTree} {r : Reference} {p : Path} {trace : ProbeLog}
    (h : resolve s t r = .ok ⟨⟨.native, .path p⟩, trace⟩) :
    Search.FirstVerifies s t (Search.candidates s r.name r.file) p ∧
      (t.isFile p = true ∨
        ∃ step ∈ Search.candidates s r.name r.file, step.Redirects t p) := by
  have first := (resolve_path_iff (kind_of_resolve h)).1 ⟨trace, h⟩
  refine ⟨first, ?_⟩
  obtain ⟨before, step, after, steps, verifies, _⟩ := first
  have hstep : step ∈ Search.candidates s r.name r.file := by simp [steps]
  exact verifies.isFile_or_redirects.imp_right fun redirects => ⟨step, hstep, redirects⟩

theorem resolve_verified_halfInstalled :
    ∃ step ∈ Search.candidates twoRoots "left-pad" none,
      step.Redirects halfInstalled (Path.ofString "/one/left-pad/x.js") := by
  obtain ⟨trace, h⟩ := resolve_halfInstalled
  have missing : halfInstalled.isFile (Path.ofString "/one/left-pad/x.js") ≠ true := by
    decide +kernel
  exact (resolve_verified h).2.resolve_left missing

/-- A file whose name ends in `.js.txt`, next to one whose name ends in `.js`. -/
def twoFiles : FileTree :=
  (FileTree.empty.write (Path.ofString "/one/a.js.txt") (.file "1".toUTF8)).write
    (Path.ofString "/two/b.js") (.file "2".toUTF8)

/-- A name that is classified by the suffix before its `.txt` is not found, though a step leads to
the file. -/
theorem resolve_misses_file :
    Name.form "a.js.txt" = .bare ∧
    Name.hasExtension "a.js.txt".toList twoRoots.nativeExtensions true = true ∧
    (∃ step ∈ Search.plan twoRoots "a.js.txt" none, twoFiles.isFile step.path = true) ∧
    (resolve twoRoots twoFiles ⟨"a.js.txt", none, 1⟩).isOk = false := by
  refine ⟨by decide, by decide, ?_, ?_⟩
  · exact ⟨⟨"NODE_PATH", Path.ofString "/one/a.js.txt"⟩, by decide +kernel, by decide +kernel⟩
  · decide +kernel

/-- A name with a native suffix, as it stands, is found wherever one of its steps leads to a file,
at that step or an earlier one. Where only the `.txt` at its end hides the suffix, no step takes the
file, and the name is found by a descriptor alone. -/
theorem resolve_finds_file {s : Settings} {t : FileTree} {r : Reference}
    (bare : Name.form r.name = .bare)
    (native : Name.hasExtension r.name.toList s.nativeExtensions true = true) :
    (Name.hasExtension r.name.toList s.nativeExtensions false = true →
      ∀ before step after, Search.plan s r.name r.file = before ++ step :: after →
        t.isFile step.path = true →
          ∃ p trace, resolve s t r = .ok ⟨⟨.native, .path p⟩, trace⟩ ∧
            Search.FirstVerifies s t (before ++ [step]) p) ∧
    (Name.hasExtension r.name.toList s.nativeExtensions false = false →
      ∀ p trace, resolve s t r = .ok ⟨⟨.native, .path p⟩, trace⟩ →
        ∃ step ∈ Search.plan s r.name r.file, step.Redirects t p) := by
  have kind := kind_of_hasExtension s.scriptExtensions native
  constructor
  · intro code before step after steps file
    have hstep : step ∈ Search.plan s r.name r.file := by simp [steps]
    have direct : step.Verifies s t step.path :=
      .direct ((Search.isCode_of_mem_plan bare hstep).trans code) file
    have upTo : step ∈ before ++ [step] := by simp
    obtain ⟨p, first⟩ := Search.exists_first_of_mem upTo direct
    have found : Search.FirstVerifies s t (Search.candidates s r.name r.file) p := by
      rw [Search.candidates_bare bare, steps, List.append_cons]
      exact first.append after
    obtain ⟨trace, h⟩ := (resolve_path_iff kind).2 found
    exact ⟨p, trace, h, first⟩
  · intro other p trace h
    obtain ⟨before, step, after, steps, verifies, _⟩ := (resolve_path_iff kind).1 ⟨trace, h⟩
    rw [Search.candidates_bare bare] at steps
    have hstep : step ∈ Search.plan s r.name r.file := by simp [steps]
    exact ⟨step, hstep, verifies.redirects ((Search.isCode_of_mem_plan bare hstep).trans other)⟩

theorem resolve_finds_file_twoFiles :
    ∃ p trace, resolve twoRoots twoFiles ⟨"b.js", none, 1⟩ = .ok ⟨⟨.native, .path p⟩, trace⟩ := by
  have steps : Search.plan twoRoots "b.js" none =
      (Search.plan twoRoots "b.js" none).take 5 ++
        ⟨"NODE_PATH", Path.ofString "/two/b.js"⟩ :: [] := by decide +kernel
  obtain ⟨p, trace, h, _⟩ :=
    (@resolve_finds_file twoRoots twoFiles ⟨"b.js", none, 1⟩ (by decide) (by decide)).1 (by decide)
      _ _ _ steps (by decide +kernel)
  exact ⟨p, trace, h⟩

end Resolution

end ScriptImports
