import ScriptImports.CommandLine.Run
import ScriptImports.Proofs.Scripts

/-!
The listing of what a program imports. It is complete or it is not printed at all: every import has
to be a script that can be loaded, since the command line registers no native module, and otherwise
the one thing that is told is why one of the imports failed. Which of them that is may hang on the
order in which the tasks take their turns.
-/
namespace ScriptImports.CommandLine

variable {h : Host} {s : Settings} {schedule : Schedule} {program : Path} {code : String}

/-- What a listing loads in. -/
def Host.world (h : Host) (s : Settings) : World := ⟨h.tree, ⟨s.stagingDir, []⟩, h.network, .empty⟩

/-- The path by which a listing shows its program. -/
def Host.shown (h : Host) (program : Path) : Path := (h.tree.canonical program).toOption.getD program

/-- The imports that a listing is about. -/
def Host.imports (h : Host) (program : Path) (code : String) : List Reference :=
  Statement.scan code (some (h.shown program))

/-- One script of a listing, with the import that it is loaded for. -/
structure Entry where
  reference : Reference
  location : Location
  text : String

/-- Where the script is imported, under which name, where it is and how long. -/
def Entry.line (shown : Path) (e : Entry) : String :=
  shown.toString ++ ":" ++ toString e.reference.line ++ " " ++ e.reference.name ++ " -> " ++
    e.location.text ++ " (" ++ toString e.text.utf8ByteSize ++ " bytes)"

def listing (shown : Path) : List Entry → String
  | [] => "no imports\n"
  | entries => unlines (entries.map (Entry.line shown))

/-- The entries are what the references stand for, in their order. -/
def Lists (w : World) (s : Settings) (references : List Reference) (entries : List Entry) : Prop :=
  entries.map Entry.reference = references ∧
    ∀ e ∈ entries, w.LoadsScript s e.reference e.location e.text

theorem Lists.each {w : World} {references : List Reference} {entries : List Entry}
    (lists : Lists w s references entries) {r : Reference} (hr : r ∈ references) :
    ∃ location text, w.LoadsScript s r location text := by
  rw [← lists.1] at hr
  obtain ⟨e, he, rfl⟩ := List.mem_map.1 hr
  exact ⟨e.location, e.text, lists.2 e he⟩

theorem dependencyLine_script {d : Dependency} {text : String} (script : d.payload = .script text)
    (shown : Path) :
    dependencyLine shown d = Entry.line shown ⟨d.reference, d.candidate.location, text⟩ := by
  rw [dependencyLine, script, describe, Entry.line]
  simp only [String.append_assoc]
  rfl

theorem exists_entries {w w' : World} {references : List Reference} {deps : Dependencies}
    (unregistered : w.registry = .empty)
    (loads : w.loadReferences s schedule references = (w', .ok deps)) (shown : Path) :
    ∃ entries, Lists w s references entries ∧
      deps.map (dependencyLine shown) = entries.map (Entry.line shown) := by
  obtain ⟨order, each⟩ := World.loadReferences_scripts unregistered loads
  clear loads
  subst order
  induction deps with
  | nil => exact ⟨[], ⟨rfl, nofun⟩, rfl⟩
  | cons d deps ih =>
      obtain ⟨text, script, here⟩ := each d List.mem_cons_self
      obtain ⟨entries, ⟨order, all⟩, lines⟩ := ih fun e he => each e (List.mem_cons_of_mem d he)
      refine ⟨⟨d.reference, d.candidate.location, text⟩ :: entries, ⟨?_, ?_⟩, ?_⟩
      · rw [List.map_cons, List.map_cons, order]
      · exact List.forall_mem_cons.2 ⟨here, all⟩
      · rw [List.map_cons, List.map_cons, lines, dependencyLine_script script]

/-! One listing. -/

theorem runDeps_eq (readable : h.tree.readText program = .ok code) :
    runDeps h s schedule program =
      if h.imports program code = [] then .ok (listing (h.shown program) [])
      else
        match ((h.world s).loadReferences s schedule (h.imports program code)).2 with
        | .error f => .error (reportFailure f)
        | .ok deps => .ok (unlines (deps.map (dependencyLine (h.shown program)))) := by
  rw [runDeps, readable]
  rfl

theorem runDeps_eq_ok {out : String} (readable : h.tree.readText program = .ok code)
    (lists : runDeps h s schedule program = .ok out) :
    ∃ entries, Lists (h.world s) s (h.imports program code) entries ∧
      out = listing (h.shown program) entries := by
  rw [runDeps_eq readable] at lists
  split at lists
  · next none =>
      cases lists
      exact ⟨[], ⟨none.symm, nofun⟩, rfl⟩
  next some =>
  split at lists
  · cases lists
  next deps loaded =>
  cases lists
  obtain ⟨entries, lists, lines⟩ := exists_entries rfl (Prod.ext rfl loaded) (h.shown program)
  refine ⟨entries, lists, ?_⟩
  cases entries with
  | nil => exact absurd lists.1.symm some
  | cons e entries => exact congrArg unlines lines

theorem runDeps_of_loadsScript (readable : h.tree.readText program = .ok code)
    (all : ∀ r ∈ h.imports program code, ∃ location text,
      (h.world s).LoadsScript s r location text) :
    ∃ out, runDeps h s schedule program = .ok out := by
  obtain ⟨_, _, loads⟩ := World.loadReferences_of_loadsScript all schedule
  rw [runDeps_eq readable, loads]
  split <;> exact ⟨_, rfl⟩

theorem runDeps_eq_error {report : Report} (readable : h.tree.readText program = .ok code)
    (fails : runDeps h s schedule program = .error report) :
    ∃ f, (h.world s).Blames s schedule (h.imports program code) f ∧ report = reportFailure f := by
  rw [runDeps_eq readable] at fails
  split at fails
  · cases fails
  split at fails
  · next f failed =>
      cases fails
      exact ⟨f, World.loadReferences_blames (Prod.ext rfl failed), rfl⟩
  · cases fails

/-! A whole line of arguments. -/

variable {words : List String} {a : Arguments}

/-- What the user is shown of the result of a command. -/
def shows : Except Report String → Output
  | .ok out => ⟨0, out, ""⟩
  | .error report => ⟨1, "", report.text⟩

theorem run_eq_shows (parsed : parse words = .ok a) :
    run h schedule words = shows (runCommand h schedule a) := by
  rw [run, parsed]
  dsimp only
  cases runCommand h schedule a <;> rfl

theorem run_unset {report : Report} (parsed : parse words = .ok a)
    (unset : settings h a = .error report) : run h schedule words = ⟨1, "", report.text⟩ := by
  rw [run_eq_shows parsed, runCommand, unset, shows]

theorem run_deps (parsed : parse words = .ok a) (command : a.command = .deps program)
    (set : settings h a = .ok s) :
    run h schedule words = shows (runDeps h s schedule program) := by
  rw [run_eq_shows parsed, runCommand, set, command]

/-- A program's imports are listed, with status 0, if and only if the settings load and every one of
them is a script that resolves and loads. The listing has an entry for each, in their order. Any other
run has status 1, and prints nothing but the failure of one of the imports, or that of the settings;
with a native module among the imports it is always so. -/
theorem run_lists_all_or_nothing (parsed : parse words = .ok a)
    (command : a.command = .deps program) (readable : h.tree.readText program = .ok code)
    (schedule : Schedule) :
    ((run h schedule words).exit = 0 ↔ ∃ s, settings h a = .ok s ∧
      ∀ r ∈ h.imports program code, ∃ location text,
        (h.world s).LoadsScript s r location text) ∧
    ((run h schedule words).exit = 0 → ∃ s entries, settings h a = .ok s ∧
      Lists (h.world s) s (h.imports program code) entries ∧
      run h schedule words = ⟨0, listing (h.shown program) entries, ""⟩) ∧
    ((run h schedule words).exit ≠ 0 →
      (∃ report, settings h a = .error report ∧ run h schedule words = ⟨1, "", report.text⟩) ∨
      ∃ s f, settings h a = .ok s ∧ (h.world s).Blames s schedule (h.imports program code) f ∧
        run h schedule words = ⟨1, "", (reportFailure f).text⟩) ∧
    ∀ s, settings h a = .ok s →
      (∃ r ∈ h.imports program code,
        Name.kind s.nativeExtensions s.scriptExtensions r.name = .native) →
      (run h schedule words).exit = 1 := by
  cases set : settings h a with
  | error report =>
      rw [run_unset parsed set]
      exact ⟨⟨nofun, nofun⟩, nofun, fun _ => Or.inl ⟨report, rfl, rfl⟩, nofun⟩
  | ok s =>
      rw [run_deps parsed command set]
      cases result : runDeps h s schedule program with
      | ok out =>
          obtain ⟨entries, lists, rfl⟩ := runDeps_eq_ok readable result
          refine ⟨⟨fun _ => ⟨s, rfl, fun r hr => lists.each hr⟩, fun _ => rfl⟩,
            fun _ => ⟨s, entries, rfl, lists, rfl⟩, fun failed => absurd rfl failed, ?_⟩
          rintro s' ⟨⟩ ⟨r, hr, native⟩
          obtain ⟨_, _, loads⟩ := lists.each hr
          rw [loads.kind] at native
          cases native
      | error report =>
          obtain ⟨f, blames, rfl⟩ := runDeps_eq_error readable result
          refine ⟨⟨nofun, ?_⟩, nofun, fun _ => Or.inr ⟨s, f, rfl, blames, rfl⟩, fun _ _ _ => rfl⟩
          rintro ⟨s', ⟨⟩, all⟩
          obtain ⟨out, lists⟩ := @runDeps_of_loadsScript h s schedule _ _ readable all
          rw [result] at lists
          cases lists

/-- A program that imports the script beside it, and one that also imports a native module. -/
def desk : Host where
  environment := fun _ => none
  tree := ((FileTree.empty.write (Path.ofString "/proj/lib.nako3") (.file "1を表示".toUTF8)).write
    (Path.ofString "/proj/main.nako3") (.file "!「lib.nako3」を取り込む".toUTF8)).write
    (Path.ofString "/proj/mixed.nako3")
    (.file "!「lib.nako3」を取り込む\n!「b.js」を取り込む".toUTF8)
  network := .empty
  executable := .ok (Path.ofString "/opt/bin/loader")
  accountHome := none

example : run desk ⟨[], []⟩ ["deps", "/proj/main.nako3"] =
    ⟨0, "/proj/main.nako3:1 lib.nako3 -> /proj/lib.nako3 (10 bytes)\n", ""⟩ := by decide +kernel

theorem run_lists_all_or_nothing_desk :
    (∃ s entries, settings desk ⟨none, none, false, .deps (Path.ofString "/proj/main.nako3")⟩ = .ok s ∧
      Lists (desk.world s) s [⟨"lib.nako3", some (Path.ofString "/proj/main.nako3"), 1⟩] entries ∧
      run desk ⟨[], []⟩ ["deps", "/proj/main.nako3"] =
        ⟨0, listing (Path.ofString "/proj/main.nako3") entries, ""⟩) ∧
    (run desk ⟨[], []⟩ ["deps", "/proj/mixed.nako3"]).exit = 1 := by
  obtain ⟨zero, lists, _⟩ := @run_lists_all_or_nothing desk (Path.ofString "/proj/main.nako3")
    "!「lib.nako3」を取り込む" ["deps", "/proj/main.nako3"]
    ⟨none, none, false, .deps (Path.ofString "/proj/main.nako3")⟩ (by decide +kernel) rfl
    (by decide +kernel) ⟨[], []⟩
  obtain ⟨_, _, _, native⟩ := @run_lists_all_or_nothing desk (Path.ofString "/proj/mixed.nako3")
    "!「lib.nako3」を取り込む\n!「b.js」を取り込む" ["deps", "/proj/mixed.nako3"]
    ⟨none, none, false, .deps (Path.ofString "/proj/mixed.nako3")⟩ (by decide +kernel) rfl
    (by decide +kernel) ⟨[], []⟩
  have shown : desk.shown (Path.ofString "/proj/main.nako3") = Path.ofString "/proj/main.nako3" := by
    decide +kernel
  have imports : desk.imports (Path.ofString "/proj/main.nako3") "!「lib.nako3」を取り込む" =
      [⟨"lib.nako3", some (Path.ofString "/proj/main.nako3"), 1⟩] := by decide +kernel
  constructor
  · rw [imports, shown] at lists
    refine lists (zero.2 ⟨_, rfl, ?_⟩)
    rw [imports]
    intro r hr
    rw [List.mem_singleton.1 hr]
    exact ⟨.path (Path.ofString "/proj/lib.nako3"), "1を表示", ⟨[], by decide +kernel⟩,
      .file (by decide +kernel)⟩
  · exact native _ rfl ⟨⟨"b.js", some (Path.ofString "/proj/mixed.nako3"), 2⟩, by decide +kernel,
      by decide +kernel⟩

end ScriptImports.CommandLine
