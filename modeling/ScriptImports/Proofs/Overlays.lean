import ScriptImports.Proofs.Pieces
import ScriptImports.Settings.Overlay

/-!
Roots from one environment and then from another. A variable that tells nothing is the same as one that
is not there: it leaves the root to the next environment. So two overlays are one, by the environment
that takes each variable from the first where that tells something.
-/
namespace ScriptImports

namespace Settings

/-- Whether there is anything between the separators of a list of paths. -/
def ListsPaths (list : PathText) : Prop :=
  ∃ pieces, Text.Divides (.char ':') list pieces ∧ ∃ piece ∈ pieces, piece ≠ []

theorem listsPaths_iff {list : PathText} : ListsPaths list ↔ splitPaths list ≠ [] := by
  simp only [ListsPaths, Text.divides_iff, exists_eq_left, splitPaths, ne_eq, List.map_eq_nil_iff,
    List.filter_eq_nil_iff, bne_iff_ne, not_forall, Classical.not_not, exists_prop]

instance (list : PathText) : Decidable (ListsPaths list) := decidable_of_iff _ listsPaths_iff.symm

/-- A variable tells something if it is not empty, and the list of paths if it has a path in it. -/
def Tells (env : Environment) (name : String) : Prop :=
  ∃ value ∈ env name, value ≠ [] ∧ (name = "NODE_PATH" → ListsPaths value)

instance (env : Environment) (name : String) : Decidable (Tells env name) :=
  inferInstanceAs (Decidable (∃ value ∈ env name, _))

/-- Each variable from the first environment, where that tells something, and else from the second. -/
def orElse (first second : Environment) : Environment := fun name =>
  if Tells first name then first name else second name

variable {env first second : Environment} {name : String}

theorem nonEmpty?_eq_some_iff {value : PathText} :
    nonEmpty? env name = some value ↔ env name = some value ∧ value ≠ [] := by
  rw [nonEmpty?, Option.filter_eq_some_iff, bne_iff_ne]

theorem nonEmpty?_congr (same : first name = second name) :
    nonEmpty? first name = nonEmpty? second name := by
  rw [nonEmpty?, nonEmpty?, same]

/-- The paths of an environment. -/
def pathsOf (env : Environment) : List Path := ((nonEmpty? env "NODE_PATH").map splitPaths).getD []

theorem tells_iff_nonEmpty? (other : name ≠ "NODE_PATH") :
    Tells env name ↔ nonEmpty? env name ≠ none := by
  simp only [Tells, other, false_imp_iff, and_true, Option.mem_def, ← nonEmpty?_eq_some_iff,
    Option.ne_none_iff_exists']

/-- An empty variable has no paths anyway. -/
theorem pathsOf_eq : pathsOf env = ((env "NODE_PATH").map splitPaths).getD [] := by
  rw [pathsOf, nonEmpty?]
  cases env "NODE_PATH" with
  | none => rfl
  | some value =>
      by_cases nothing : value = []
      · subst nothing
        decide
      · simp [Option.filter_some, nothing]

theorem tells_iff_pathsOf : Tells env "NODE_PATH" ↔ pathsOf env ≠ [] := by
  have some : ∀ value, ListsPaths value → value ≠ [] := by
    rintro value lists rfl
    exact absurd lists (by decide)
  rw [pathsOf_eq, Tells]
  cases env "NODE_PATH" with
  | none => simp
  | some value =>
      simp only [Option.mem_def, Option.some.injEq, exists_eq_left', Option.map_some,
        Option.getD_some, forall_const, ← listsPaths_iff]
      exact and_iff_right_of_imp (some value)

theorem nonEmpty?_orElse (other : name ≠ "NODE_PATH") :
    nonEmpty? (orElse first second) name = (nonEmpty? first name).or (nonEmpty? second name) := by
  by_cases tells : Tells first name
  · rw [nonEmpty?_congr (if_pos tells)]
    rw [tells_iff_nonEmpty? other, Option.ne_none_iff_exists'] at tells
    obtain ⟨value, told⟩ := tells
    rw [told, Option.some_or]
  · rw [nonEmpty?_congr (if_neg tells)]
    rw [tells_iff_nonEmpty? other, Classical.not_not] at tells
    rw [tells, Option.none_or]

theorem pathsOf_orElse :
    pathsOf (orElse first second) = if pathsOf first = [] then pathsOf second else pathsOf first := by
  by_cases tells : Tells first "NODE_PATH"
  · rw [if_neg (tells_iff_pathsOf.1 tells), pathsOf, nonEmpty?_congr (if_pos tells), pathsOf]
  · rw [if_pos (Classical.not_not.1 (mt tells_iff_pathsOf.2 tells)), pathsOf,
      nonEmpty?_congr (if_neg tells), pathsOf]

/-- What a root is after an overlay that found it as it was before. -/
inductive RootFilled (value : Option PathText) : Option Path → Option Path → Prop
  | kept (root : Path) : RootFilled value (some root) (some root)
  | filled {text : PathText} : value = some text → text ≠ [] →
    RootFilled value none (some (Path.mk text))
  | unset : (∀ text, value = some text → text = []) → RootFilled value none none

/-- What a list of paths is after an overlay: where it was empty, all the pieces of the variable that
are paths. -/
inductive PathsFilled (value : Option PathText) : List Path → List Path → Prop
  | kept {paths : List Path} : paths ≠ [] → PathsFilled value paths paths
  | filled {text : PathText} {pieces : List PathText} : value = some text →
    Text.Divides (.char ':') text pieces →
    PathsFilled value [] ((pieces.filter (· != [])).map Path.mk)
  | unset : value = none → PathsFilled value [] []

/-- The roots of settings are filled from an environment, and nothing else changes. -/
structure Overlaid (env : Environment) (s s' : Settings) : Prop where
  libRoot : RootFilled (env "NAKO_LIB") s.libRoot s'.libRoot
  homeRoot : RootFilled (env "NAKO_HOME") s.homeRoot s'.homeRoot
  globalPaths : PathsFilled (env "NODE_PATH") s.globalPaths s'.globalPaths
  others : { s' with
    libRoot := s.libRoot, homeRoot := s.homeRoot, globalPaths := s.globalPaths } = s

theorem rootFilled_or (root : Option Path) :
    RootFilled (env name) root (root.or ((nonEmpty? env name).map Path.mk)) := by
  cases root with
  | some root => exact .kept root
  | none =>
      rw [Option.none_or]
      cases told : nonEmpty? env name with
      | some text =>
          obtain ⟨there, some⟩ := nonEmpty?_eq_some_iff.1 told
          exact .filled there some
      | none =>
          refine .unset fun text there => Classical.byContradiction fun some => ?_
          rw [nonEmpty?_eq_some_iff.2 ⟨there, some⟩] at told
          cases told

theorem pathsFilled_pathsOf (paths : List Path) : PathsFilled (env "NODE_PATH") paths
    (if paths = [] then pathsOf env else paths) := by
  split
  · next nothing =>
      subst nothing
      rw [pathsOf_eq]
      cases told : env "NODE_PATH" with
      | none => exact .unset rfl
      | some list => exact .filled rfl (Text.divides_iff.2 rfl)
  · next some => exact .kept some

theorem overlaid_overlay (s : Settings) (env : Environment) : Overlaid env s (s.overlay env) where
  libRoot := rootFilled_or s.libRoot
  homeRoot := rootFilled_or s.homeRoot
  globalPaths := pathsFilled_pathsOf s.globalPaths
  others := rfl

theorem overlay_overlay (s : Settings) :
    (s.overlay first).overlay second = s.overlay (orElse first second) := by
  have root : ∀ (r : Option Path) (name : String), name ≠ "NODE_PATH" →
      (r.or ((nonEmpty? first name).map Path.mk)).or
        ((nonEmpty? second name).map Path.mk) =
      r.or ((nonEmpty? (orElse first second) name).map Path.mk) := by
    intro r name other
    rw [nonEmpty?_orElse other, Option.map_or, Option.or_assoc]
  have paths : ∀ ps : List Path,
      (if (if ps = [] then pathsOf first else ps) = [] then pathsOf second
        else if ps = [] then pathsOf first else ps) =
      if ps = [] then pathsOf (orElse first second) else ps := by
    intro ps
    rw [pathsOf_orElse]
    by_cases nothing : ps = [] <;> simp [nothing]
  simp only [overlay, mk.injEq, true_and, and_true]
  exact ⟨root s.libRoot "NAKO_LIB" (by decide), root s.homeRoot "NAKO_HOME" (by decide),
    paths s.globalPaths⟩

/-- Two overlays are the one by the environments' merger, an overlay changes nothing when it comes
again, and it fills the roots that are not set and leaves all else as it is. -/
theorem overlay_merges (s : Settings) (first second : Environment) :
    (s.overlay first).overlay second = s.overlay (orElse first second) ∧
    (s.overlay first).overlay first = s.overlay first ∧
    Overlaid first s (s.overlay first) := by
  refine ⟨overlay_overlay s, ?_, overlaid_overlay s first⟩
  have same : orElse first first = first := by
    funext name
    rw [orElse, ite_self]
  rw [overlay_overlay, same]

/-- A list of nothing but separators leaves the paths to the next environment, a root with that name
does not. -/
example : ["NODE_PATH", "NAKO_LIB"].map
      (orElse (fun _ => some (.ofString "::")) fun _ => some (.ofString "/g")) =
    [some (.ofString "/g"), some (.ofString "::")] := by decide +kernel

end Settings

end ScriptImports
