import ScriptImports.Search
import ScriptImports.Proofs.Names
import ScriptImports.Proofs.NormalForm

/-!
The directories that a bare name is looked for in. A plan puts the name into each of its roots, and
the roots come from the settings and the importing file alone: of the name they know only whether it
is that of a bundled plugin. A bare name is one ordinary segment, so that it leads out of no root.
-/
namespace ScriptImports

open ScriptImports.Path

theorem Name.isOrdinary_of_form_eq_bare {name : String} (bare : form name = .bare)
    (some : name ≠ "") : IsOrdinary (PathText.ofString name) := by
  refine ⟨isName_of_form_eq_bare bare some, fun up => ?_⟩
  have dots : name = ".." := PathText.ofString_inj.1 up
  exact (form_eq_bare_iff.1 bare).1 (by rw [dots]; rfl)

/-- The candidate for a name in the directory of a root. -/
def SearchStep.below (root : SearchStep) (name : String) : SearchStep :=
  ⟨root.label, root.path.child name⟩

namespace Search

/-- The directories of a plan with their labels, in the order they are looked into. -/
def roots (s : Settings) (bundled : Bool) (origin : Option Path) : List SearchStep :=
  let anchored (p : Path) := p.anchor s.workingDir
  let install := anchored s.installRoot
  [⟨"origin directory", originDir s origin⟩] ++
  (if bundled then
    [⟨"runtime src", anchored s.runtimeSrc⟩, ⟨"engine src", anchored s.engineSrc⟩]
  else []) ++
  (s.libRoot.toList.map fun lib => ⟨"NAKO_LIB", anchored lib⟩) ++
  [⟨"runtime node_modules", install.child "node_modules"⟩,
   ⟨"runtime sibling", anchored (install.child "..")⟩,
   ⟨"engine package", anchored s.enginePackageSrc⟩] ++
  (s.homeRoot.toList.flatMap fun home =>
    [⟨"NAKO_HOME", (anchored home).child "node_modules"⟩,
     ⟨"NAKO_HOME/src", (anchored home).child "src"⟩]) ++
  (s.globalPaths.map fun path => ⟨"NODE_PATH", anchored path⟩)

variable {s : Settings} {origin : Option Path}

theorem plan_eq_roots (s : Settings) (name : String) (origin : Option Path) :
    plan s name origin =
      (roots s (Name.isBundled name) origin).map fun root => root.below name := by
  cases bundled : Name.isBundled name <;>
    simp [plan, roots, SearchStep.below, bundled, List.map_flatMap, Function.comp_def]

/-- A root is the directory of the importing file, a path of the settings that has been anchored, or
one of two directories below such a path. -/
theorem of_mem_roots {motive : Path → Prop} {bundled : Bool}
    (beside : motive (originDir s origin)) (anchored : ∀ p : Path, motive (p.anchor s.workingDir))
    (inside : ∀ p : Path, ∀ name ∈ ["node_modules", "src"],
      motive ((p.anchor s.workingDir).child name)) :
    ∀ root ∈ roots s bundled origin, motive root.path := by
  intro root hroot
  simp only [roots, List.mem_append, List.mem_cons, List.mem_map, List.mem_flatMap,
    Option.mem_toList, List.not_mem_nil, or_false] at hroot
  rcases hroot with ((((rfl | ofBundled) | lib) | runtime) | home) | globalPath
  · exact beside
  · cases bundled with
    | false => cases ofBundled
    | true =>
        simp only [↓reduceIte, List.mem_cons, List.not_mem_nil, or_false] at ofBundled
        rcases ofBundled with rfl | rfl <;> exact anchored _
  · obtain ⟨lib, _, rfl⟩ := lib
    exact anchored lib
  · rcases runtime with rfl | rfl | rfl
    · exact inside _ "node_modules" (by simp)
    · exact anchored _
    · exact anchored _
  · obtain ⟨home, _, rfl | rfl⟩ := home
    · exact inside home "node_modules" (by simp)
    · exact inside home "src" (by simp)
  · obtain ⟨path, _, rfl⟩ := globalPath
    exact anchored path

theorem isNormal_of_mem_roots {bundled : Bool} :
    ∀ root ∈ roots s bundled origin, root.path.IsNormal := by
  apply of_mem_roots
  · cases origin with
    | none => exact isNormal_anchor _ _
    | some file => exact isNormal_folder _ _
  · exact fun p => isNormal_anchor p _
  · intro p name hname
    have ordinary : ∀ name ∈ ["node_modules", "src"], IsOrdinary (PathText.ofString name) := by
      simp only [List.mem_cons, List.not_mem_nil, or_false, forall_eq_or_imp, forall_eq]
      exact ⟨⟨⟨by decide, by decide, by decide⟩, by decide⟩,
        ⟨⟨by decide, by decide, by decide⟩, by decide⟩⟩
    exact (isNormal_anchor p _).child (ordinary name hname)

theorem isRooted_of_mem_roots {bundled : Bool} (rooted : s.workingDir.isRooted = true) :
    ∀ root ∈ roots s bundled origin, root.path.isRooted = true := by
  apply @of_mem_roots s origin fun p => p.isRooted = true
  · cases origin with
    | none => exact isRooted_anchor _ rfl
    | some file => exact isRooted_folder _ rooted
  · exact fun p => isRooted_anchor p rooted
  · intro p name hname
    have plain : ∀ name ∈ ["node_modules", "src"], '/' ∉ String.toList name := by decide
    rw [isRooted_child _ (plain name hname)]
    exact isRooted_anchor p rooted

/-- The labels and directories of a plan, the directories taken from its paths. -/
theorem map_parent?_plan {name : String} (bare : Name.form name = .bare) (some : name ≠ "") :
    (plan s name origin).map (fun step => (step.label, step.path.parent?)) =
      (roots s (Name.isBundled name) origin).map fun root => (root.label, .some root.path) := by
  rw [plan_eq_roots, List.map_map]
  apply List.map_congr_left
  intro root hroot
  have parent := parent?_child (isNormal_of_mem_roots root hroot).isPlain
    (Name.isName_of_form_eq_bare bare some)
  exact Prod.ext rfl parent

/-- A name is bare if it has no separator and no dot at its start. Where the working directory is
rooted, the candidates of a bare name are rooted and in normal form, each of them is the name itself
in some directory, and names have the same labels and directories in the same order, as long as both
or neither of them are names of bundled plugins. -/
theorem plan_confined (s : Settings) (name : String) (origin : Option Path) :
    (Name.form name = .bare ↔
      name.toList.head? ≠ some '.' ∧ '/' ∉ name.toList ∧ '\\' ∉ name.toList) ∧
    (s.workingDir.isRooted = true → Name.form name = .bare → name ≠ "" →
      (∀ step ∈ plan s name origin, step.path.isRooted = true ∧ step.path.normalize = step.path ∧
        step.path.fileName? = some (.ofString name)) ∧
      ∀ other, Name.form other = .bare → other ≠ "" →
        Name.isBundled other = Name.isBundled name →
        (plan s other origin).map (fun step => (step.label, step.path.parent?)) =
          (plan s name origin).map fun step => (step.label, step.path.parent?)) := by
  refine ⟨Name.form_eq_bare_iff, fun rooted bare nonempty => ⟨?_, ?_⟩⟩
  · intro step hstep
    rw [plan_eq_roots, List.mem_map] at hstep
    obtain ⟨root, hroot, rfl⟩ := hstep
    have ordinary := Name.isOrdinary_of_form_eq_bare bare nonempty
    refine ⟨?_, normalize_eq_self_iff.2 ((isNormal_of_mem_roots root hroot).child ordinary),
      fileName?_child _ ordinary.1 ordinary.2⟩
    rw [SearchStep.below, isRooted_child _ (Name.form_eq_bare_iff.1 bare).2.1]
    exact isRooted_of_mem_roots rooted root hroot
  · intro other bare' nonempty' bundled
    rw [map_parent?_plan bare' nonempty', map_parent?_plan bare nonempty, bundled]

/-- Roots that are written relative, with `..`, or as nothing at all. -/
def scattered : Settings :=
  { Settings.default (fun _ => none) with
    workingDir := Path.ofString "/work/./here"
    installRoot := Path.ofString "../opt/"
    libRoot := some Path.empty
    homeRoot := some (Path.ofString "../../../..")
    globalPaths := [Path.ofString "a/../../b", Path.ofString "/"]
    enginePackage := "/etc/../core" }

theorem plan_confined_scattered :
    (∀ step ∈ plan scattered "left-pad" (some (Path.ofString "../main.nako3")),
      step.path.isRooted = true ∧ step.path.normalize = step.path ∧
        step.path.fileName? = some (.ofString "left-pad")) ∧
    (plan scattered "a:b.js" (some (Path.ofString "../main.nako3"))).map
        (fun step => (step.label, step.path.parent?)) =
      (plan scattered "left-pad" (some (Path.ofString "../main.nako3"))).map
        fun step => (step.label, step.path.parent?) := by
  obtain ⟨_, confined⟩ := plan_confined scattered "left-pad" (some (Path.ofString "../main.nako3"))
  obtain ⟨each, same⟩ := confined (by decide) (by decide) (by decide)
  exact ⟨each, same "a:b.js" (by decide) (by decide) (by decide)⟩

end Search

end ScriptImports
