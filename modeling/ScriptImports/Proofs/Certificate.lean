import ScriptImports.FileTree.Change
import ScriptImports.Resolution
import ScriptImports.Proofs.PlainSearch
import ScriptImports.Proofs.Utf8Paths

/-!
The trace of a resolution as its certificate. A tree that answers the probes of the trace as the first
one did, and has the same texts where a descriptor was read, gives the same outcome: nothing else of
the tree was looked at. A row of the trace holds the path of its probe as it is printed, which spells
the path if that is UTF-8.
-/
namespace ScriptImports

/-- Two trees have the same answers for probes, and the same text at the path of a probe that is
labelled as that of a descriptor and has found it. -/
structure Probe.Agree (probes : List Probe) (t u : FileTree) : Prop where
  files : ∀ x ∈ probes, u.isFile x.path = t.isFile x.path
  texts : ∀ x ∈ probes, x.found = true →
    ("/" ++ Descriptor.fileName).toList <:+ x.label.toList → u.readText x.path = t.readText x.path

variable {s : Settings} {t u : FileTree}

theorem Probe.Agree.mono {probes more : List Probe} (agree : Agree more t u)
    (sub : probes ⊆ more) : Agree probes t u :=
  ⟨fun x hx => agree.files x (sub hx), fun x hx => agree.texts x (sub hx)⟩

namespace SearchStep

/-- The probe that asks whether a step is a file. -/
def direct (t : FileTree) (step : SearchStep) : Probe := ⟨step.label, step.path, t.isFile step.path⟩

/-- The probe that asks whether a step has a descriptor. -/
def described (t : FileTree) (step : SearchStep) : Probe :=
  ⟨step.label ++ "/" ++ Descriptor.fileName, step.descriptor, t.isFile step.descriptor⟩

/-- The probes of a step. -/
def probes (s : Settings) (t : FileTree) (step : SearchStep) : List Probe :=
  (if step.isCode s then [step.direct t] else []) ++
  if step.isCode s && t.isFile step.path then [] else [step.described t]

theorem map_row_probes (step : SearchStep) : (step.probes s t).map Probe.row = step.rows s t := by
  rw [probes, rows, List.map_append, apply_ite (List.map _), apply_ite (List.map _)]
  rfl

theorem path_of_mem_probes {step : SearchStep} {x : Probe} (hx : x ∈ step.probes s t) :
    x.path = step.path ∨ x.path = step.descriptor := by
  rw [probes, List.mem_append] at hx
  cases hx with
  | inl hx =>
      split at hx
      · rw [List.mem_singleton.1 hx]
        exact Or.inl rfl
      · cases hx
  | inr hx =>
      split at hx
      · cases hx
      · rw [List.mem_singleton.1 hx]
        exact Or.inr rfl

theorem direct_congr {step : SearchStep} (agree : Probe.Agree (step.probes s t) t u)
    (code : step.isCode s = true) : u.isFile step.path = t.isFile step.path :=
  agree.files (step.direct t) (by simp [probes, code])

theorem described_congr {step : SearchStep} (agree : Probe.Agree (step.probes s t) t u)
    (other : (step.isCode s && t.isFile step.path) = false) :
    u.isFile step.descriptor = t.isFile step.descriptor ∧
      (t.isFile step.descriptor = true → step.entry u = step.entry t) := by
  have asked : step.described t ∈ step.probes s t := by simp [probes, other]
  refine ⟨agree.files _ asked, fun found => ?_⟩
  have text : u.readText step.descriptor = t.readText step.descriptor := by
    refine agree.texts _ asked found ?_
    simp only [described, String.toList_append, List.append_assoc]
    exact List.suffix_append _ _
  rw [entry, entry, Descriptor.read, Descriptor.read, text]

theorem probes_congr {step : SearchStep} (agree : Probe.Agree (step.probes s t) t u) :
    step.probes s u = step.probes s t ∧ step.found s u = step.found s t := by
  have first : (step.isCode s && u.isFile step.path) = (step.isCode s && t.isFile step.path) ∧
      (if step.isCode s then [step.direct u] else []) =
        if step.isCode s then [step.direct t] else [] := by
    cases code : step.isCode s with
    | false => simp
    | true => simp [direct, direct_congr agree code]
  rw [probes, probes, found, found, first.1, first.2]
  cases other : step.isCode s && t.isFile step.path with
  | true => simp
  | false =>
      obtain ⟨same, entries⟩ := described_congr agree other
      rw [described, described, same]
      refine ⟨rfl, ?_⟩
      cases there : t.isFile step.descriptor with
      | false => rfl
      | true => simp [entries there]

end SearchStep

namespace Search

/-- The probes of steps that are tried up to the first that finds a file. -/
def probes (s : Settings) (t : FileTree) : List SearchStep → List Probe
  | [] => []
  | step :: steps => step.probes s t ++ if (step.found s t).isSome then [] else probes s t steps

theorem map_row_probes (steps : List SearchStep) :
    (probes s t steps).map Probe.row = rows s t steps := by
  induction steps with
  | nil => rfl
  | cons step steps ih =>
      rw [probes, rows, List.map_append, SearchStep.map_row_probes, apply_ite (List.map _), ih,
        List.map_nil]

theorem path_of_mem_probes {steps : List SearchStep} {x : Probe} (hx : x ∈ probes s t steps) :
    ∃ step ∈ steps, x.path = step.path ∨ x.path = step.descriptor := by
  induction steps with
  | nil => cases hx
  | cons step steps ih =>
      rw [probes, List.mem_append] at hx
      cases hx with
      | inl hx => exact ⟨step, List.mem_cons_self, SearchStep.path_of_mem_probes hx⟩
      | inr hx =>
          split at hx
          · cases hx
          · obtain ⟨later, hlater, path⟩ := ih hx
            exact ⟨later, List.mem_cons_of_mem step hlater, path⟩

theorem probes_congr {steps : List SearchStep} (agree : Probe.Agree (probes s t steps) t u) :
    probes s u steps = probes s t steps ∧ found s u steps = found s t steps := by
  induction steps with
  | nil => exact ⟨rfl, rfl⟩
  | cons step steps ih =>
      have here := SearchStep.probes_congr (agree.mono fun x hx => List.mem_append_left _ hx)
      simp only [found, probes, List.findSome?_cons, here.1, here.2] at agree ih ⊢
      cases first : step.found s t with
      | some p => simp
      | none =>
          rw [first] at agree
          have later := ih (agree.mono fun x hx => List.mem_append_right _ hx)
          simp [later.1, later.2]

end Search

namespace Resolution

/-- The trace that an outcome shows. -/
def shown : Except ImportFailure Resolution → ProbeLog
  | .ok resolution => resolution.trace
  | .error failure => failure.trace?.getD []

/-- The probes of a resolution. A script is not looked for. -/
def probes (s : Settings) (t : FileTree) (r : Reference) : List Probe :=
  match Name.kind s.nativeExtensions s.scriptExtensions r.name with
  | .script => []
  | .native => Search.probes s t (Search.candidates s r.name r.file)

theorem resolve_script {r : Reference}
    (script : Name.kind s.nativeExtensions s.scriptExtensions r.name = .script) :
    resolve s u r = resolve s t r := by
  rw [resolve, resolve, script]

/-- What becomes of a native module is settled by the rows of its search and the file found. -/
theorem resolve_native {r : Reference}
    (native : Name.kind s.nativeExtensions s.scriptExtensions r.name = .native) :
    resolve s t r =
      match if Name.isUrl r.name then some (.url r.name)
        else (Search.found s t (Search.candidates s r.name r.file)).map Location.path with
      | some location =>
        .ok ⟨⟨.native, location⟩, Search.rows s t (Search.candidates s r.name r.file)⟩
      | none =>
        .error (r.failure
          (.unresolved r.name (Search.rows s t (Search.candidates s r.name r.file)))) := by
  rw [resolve, native, ← search_log, ← search_location]
  dsimp only
  generalize search s .empty t r.name r.file = outcome
  obtain ⟨session, location⟩ := outcome
  cases location <;> rfl

/-- The rows of the trace are those of the probes. -/
theorem shown_resolve (s : Settings) (t : FileTree) (r : Reference) :
    shown (resolve s t r) = (probes s t r).map Probe.row := by
  cases kind : Name.kind s.nativeExtensions s.scriptExtensions r.name with
  | script =>
      rw [resolve, probes, kind]
      dsimp only
      split <;> rfl
  | native =>
      rw [resolve_native kind, probes, kind, Search.map_row_probes]
      split <;> rfl

theorem resolve_congr {r : Reference} (agree : Probe.Agree (probes s t r) t u) :
    resolve s u r = resolve s t r := by
  cases kind : Name.kind s.nativeExtensions s.scriptExtensions r.name with
  | script => exact resolve_script kind
  | native =>
      rw [probes, kind] at agree
      obtain ⟨same, found⟩ := Search.probes_congr agree
      rw [resolve_native kind, resolve_native kind, ← Search.map_row_probes, same,
        Search.map_row_probes, found]

theorem isUtf8_of_mem_probes {r : Reference} (utf8 : s.IsUtf8)
    (importing : ∀ file ∈ r.file, file.IsUtf8) : ∀ x ∈ probes s t r, x.path.IsUtf8 := by
  intro x hx
  rw [probes] at hx
  split at hx
  · cases hx
  · obtain ⟨step, hstep, path⟩ := Search.path_of_mem_probes hx
    have spelled := Search.isUtf8_of_mem_candidates utf8 importing r.name step hstep
    cases path with
    | inl path => exact path ▸ spelled
    | inr path => exact path ▸ spelled.child _

/-- A package below the last root that is searched. -/
def packaged : FileTree :=
  FileTree.empty.write (Path.ofString "/global/left-pad/package.json")
    (.file "\x7b\"main\": \"x.js\"\x7d".toUTF8)

/-- The same with the entry file of the package, which no probe asks for. -/
def completed : FileTree :=
  packaged.write (Path.ofString "/global/left-pad/x.js") (.file "export default 1".toUTF8)

def globalSettings : Settings :=
  { Settings.default (fun _ => none) with globalPaths := [Path.ofString "/global"] }

theorem globalSettings_isUtf8 : globalSettings.IsUtf8 where
  installRoot := Path.isUtf8_ofString "."
  workingDir := Path.isUtf8_ofString "."
  libRoot := nofun
  homeRoot := nofun
  globalPaths := by
    intro p hp
    rw [List.mem_singleton.1 hp]
    exact Path.isUtf8_ofString "/global"

def leftPad : Reference := ⟨"left-pad", none, 1⟩

def leftPadTrace : ProbeLog := shown (resolve globalSettings packaged leftPad)

theorem leftPadTrace_agree :
    Probe.Agree (leftPadTrace.map ProbeRow.spelled) packaged completed := by
  have files : ∀ x ∈ leftPadTrace.map ProbeRow.spelled,
      completed.isFile x.path = packaged.isFile x.path := by
    decide +kernel
  have read : ∀ x ∈ leftPadTrace.map ProbeRow.spelled,
      x.found = true → x.path = Path.ofString "/global/left-pad/package.json" := by
    decide +kernel
  refine ⟨files, fun x hx found _ => ?_⟩
  rw [read x hx found]
  rfl

end Resolution

end ScriptImports
