import ScriptImports.Resolution
import ScriptImports.Proofs.PlainSearch

/-!
Paths that are anchored more than once, and the directories that names are read from. Anchoring at a
base that has itself been anchored is anchoring once. The folder of a file is what `..` below the
file leads to, so that a name is read from the folder of a file as if it were written behind that
`..`. A name that comes from no file is read from the working directory, but this is taken to lie
below the root even where it is written relative to the current directory.
-/
namespace ScriptImports

namespace Path

theorem normalize_join_join (c b : Path) {p : Path} (hb : b.isRooted = false)
    (hp : p.isRooted = false) : ((c.join b).join p).normalize = (c.join (b.join p)).normalize := by
  have below : (b.join p).isRooted = false := by rw [isRooted_join b p hp, hb]
  have segments : ((c.join b).join p).segments = (c.join (b.join p)).segments := by
    rw [segments_join _ _ hp, segments_join _ _ hb, segments_join _ _ below, segments_join _ _ hp,
      List.append_assoc]
  apply normalize_congr
  · rw [isRooted_join _ _ hp, isRooted_join _ _ hb, isRooted_join _ _ below]
  · rw [segments]

theorem anchor_of_isRooted {p : Path} (rooted : p.isRooted = true) (base : Path) :
    p.anchor base = p.normalize := by
  rw [anchor, if_pos rooted]

theorem anchor_of_not_isRooted {p : Path} (unrooted : p.isRooted = false) (base : Path) :
    p.anchor base = (base.join p).normalize := by
  rw [anchor, unrooted, if_neg Bool.false_ne_true]

theorem anchor_anchor (p b c : Path) : p.anchor (b.anchor c) = (b.join p).anchor c := by
  cases hp : p.isRooted with
  | true => rw [join_of_isRooted b hp, anchor_of_isRooted hp, anchor_of_isRooted hp]
  | false =>
      have below : (b.join p).isRooted = b.isRooted := isRooted_join b p hp
      rw [anchor_of_not_isRooted hp]
      cases hb : b.isRooted with
      | true =>
          rw [anchor_of_isRooted hb, anchor_of_isRooted (below.trans hb), normalize_join_left]
      | false =>
          rw [anchor_of_not_isRooted hb, anchor_of_not_isRooted (below.trans hb),
            normalize_join_left, normalize_join_join c b hb hp]

/-! The folder of a file. -/

theorem segments_of_isNormal {p : Path} (normal : p.IsNormal) : p.segments = p.settled := by
  rw [← segments_normalize, normalize_eq_self_iff.2 normal]

/-- Below a root, `..` takes the last of the settled segments, if there is one. -/
theorem settled_child_up {p : Path} (rooted : p.isRooted = true) :
    (p.child "..").settled = p.settled.dropLast := by
  have up : IsName (.ofString "..") := ⟨by decide, by decide, by decide⟩
  obtain ⟨ups, names, none, ordinary, shape⟩ := settled_shape p
  rw [none rooted, List.replicate_zero, List.nil_append] at shape
  have stack : p.segments.foldl (push true) [] = names.reverse := by
    rw [← shape, settled, rooted, List.reverse_reverse]
  have taken : push true names.reverse Segment.up = names.reverse.tail := by
    cases reversed : names.reverse with
    | nil => rfl
    | cons top rest =>
        have last : top ∈ names := List.mem_reverse.1 (reversed ▸ List.mem_cons_self)
        simp [push, (ordinary top last).2]
  rw [settled, isRooted_child p (by decide), rooted, segments_child p up, List.foldl_append, stack,
    List.foldl_cons, List.foldl_nil]
  change (push true names.reverse Segment.up).reverse = _
  rw [taken, List.tail_reverse, List.reverse_reverse, shape]

theorem parent?_getD {p : Path} (rooted : p.isRooted = true) (normal : p.IsNormal) :
    p.parent?.getD p = ofSegments true p.segments.dropLast := by
  rw [parent?, startsHere_of_isRooted rooted, rooted]
  split
  · next nothing =>
      have root : p = ofSegments true [] := by
        rw [← nothing, ← rooted]
        exact normal.isPlain
      rw [nothing]
      exact root
  · rfl

/-- The directory that holds a file is what `..` below the file leads to. -/
theorem folder_eq_anchor_up (file : Path) {base : Path} (rooted : base.isRooted = true) :
    file.folder base = (file.child "..").anchor base := by
  have anchored := isRooted_anchor file rooted
  have normal := isNormal_anchor file base
  have up : (file.child "..").anchor base = ((file.anchor base).child "..").normalize := by
    rw [child, ← anchor_anchor, anchor_of_not_isRooted rfl, child]
  rw [folder, parent?_getD anchored normal, up, normalize, settled_child_up anchored,
    ← segments_of_isNormal normal, isRooted_child _ (by decide), anchored]

theorem anchor_folder (name file : Path) {base : Path} (rooted : base.isRooted = true) :
    name.anchor (file.folder base) = ((file.child "..").join name).anchor base := by
  rw [folder_eq_anchor_up file rooted, anchor_anchor]

/-- The directory that holds a file whose path is one name is the directory it is read from. -/
theorem parent?_join {file : Path} {name : Segment} (unrooted : file.isRooted = false)
    (single : file.segments = [name]) (down : name ≠ Segment.up) (dir : Path) :
    (dir.join file).normalize.parent? = some dir.normalize := by
  have settled : (dir.join file).settled = dir.settled ++ [name] := by
    rw [Path.settled, isRooted_join dir file unrooted, segments_join dir file unrooted, single,
      List.foldl_append, List.foldl_cons, List.foldl_nil, push_of_ne _ _ down, List.reverse_cons,
      Path.settled]
  rw [parent?, segments_normalize, settled, if_neg (by simp), List.dropLast_concat,
    isRooted_normalize, isRooted_join dir file unrooted, normalize]

end Path

/-- Anchoring at a base that has been anchored is anchoring once. Below a rooted base the folder of
any file is rooted and in normal form, and is what `..` below the file leads to; relative names and
the names of scripts are read from a file as if they were written behind that `..`. -/
theorem anchor_from_file (p b c file base : Path) :
    p.anchor (b.anchor c) = (b.join p).anchor c ∧
    (base.isRooted = true →
      (file.folder base).isRooted = true ∧ (file.folder base).IsNormal ∧
      file.folder base = (file.child "..").anchor base ∧
      ∀ (s : Settings) (name : String), s.workingDir = base →
        (Name.form name = .relative →
          Search.candidates s name (some file) =
            [⟨"relative path", ((file.child "..").child name).anchor base⟩]) ∧
        (Name.isUrl name = false → (Path.ofString name).isRooted = false →
          Resolution.scriptLocation? s name (some file) =
            some (.path (((file.child "..").child name).anchor base)))) := by
  refine ⟨Path.anchor_anchor p b c, fun rooted => ⟨Path.isRooted_folder file rooted,
    Path.isNormal_folder file base, Path.folder_eq_anchor_up file rooted, ?_⟩⟩
  rintro s name rfl
  have read := Path.anchor_folder (Path.ofString name) file rooted
  constructor
  · intro relative
    rw [Search.candidates, relative, Path.child, ← read]
    rfl
  · intro url unrooted
    rw [Resolution.scriptLocation?, url, unrooted, Path.child, ← read]
    rfl

/-- A file above the root is one in the root. -/
theorem anchor_from_file_above :
    (Path.ofString "../../..").folder (Path.ofString "/work") = Path.root ∧
    Name.form "./b.js" = .relative ∧
    Search.candidates oneRoot "./b.js" (some (Path.ofString "../../..")) =
      [⟨"relative path", Path.ofString "/b.js"⟩] ∧
    Name.isUrl "b.nako3" = false ∧
    Resolution.scriptLocation? oneRoot "b.nako3" (some (Path.ofString "../../..")) =
      some (.path (Path.ofString "/b.nako3")) := by
  obtain ⟨-, -, folder, read⟩ := (anchor_from_file (Path.ofString "b.js") (Path.ofString "..")
    (Path.ofString "/") (Path.ofString "../../..") (Path.ofString "/work")).2 (by decide)
  refine ⟨?_, by decide, ?_, by decide, ?_⟩
  · rw [folder]
    decide
  · rw [(read oneRoot "./b.js" rfl).1 (by decide)]
    decide
  · rw [(read oneRoot "b.nako3" rfl).2 (by decide) (by decide)]
    decide

/-! Names that come from no file. -/

theorem Name.isRooted_of_form_eq_relative {name : String} (relative : form name = .relative) :
    (Path.ofString name).isRooted = false := by
  rw [← Bool.not_eq_true]
  intro rooted
  have absolute : isAbsolute name = true := by
    obtain ⟨below, spelled⟩ := Path.isRooted_ofString_iff.1 rooted
    rw [isAbsolute, spelled]
    rfl
  rw [form, absolute, if_pos rfl] at relative
  split at relative <;> cases relative

namespace Search

variable {s : Settings} {t : FileTree} {name : String}

/-- The origin matters only by the directory that is read from it. -/
theorem candidates_congr {origin origin' : Option Path}
    (same : originDir s origin = originDir s origin') (name : String) :
    candidates s name origin = candidates s name origin' := by
  rw [candidates, candidates, plan, plan, same]

theorem search_congr {origin origin' : Option Path}
    (same : originDir s origin = originDir s origin') (session : ProbeSession) (t : FileTree)
    (name : String) : search s session t name origin = search s session t name origin' := by
  rw [search, search, candidates_congr same]

/-- A name that comes from no file is read from the working directory as it stands below the
root. -/
theorem originDir_none (s : Settings) : originDir s none = (Path.root.join s.workingDir).normalize := by
  rw [originDir]
  cases rooted : s.workingDir.isRooted with
  | true => rw [Path.anchor_of_isRooted rooted, Path.join_of_isRooted _ rooted]
  | false => rw [Path.anchor_of_not_isRooted rooted]

/-- What is looked at first lies in the directory that the name is read from. -/
theorem exists_first_candidate (near : Name.form name = .relative ∨ Name.form name = .bare)
    (origin : Option Path) :
    ∃ first more, candidates s name origin = first :: more ∧
      first.path.isRooted = (originDir s origin).isRooted := by
  rw [candidates]
  cases near with
  | inl relative =>
      have unrooted := Name.isRooted_of_form_eq_relative relative
      rw [relative]
      refine ⟨_, [], rfl, ?_⟩
      rw [Path.anchor_of_not_isRooted unrooted, Path.isRooted_normalize,
        Path.isRooted_join _ _ unrooted]
  | inr bare =>
      rw [bare, plan]
      exact ⟨_, _, rfl, Path.isRooted_child _ (Name.form_eq_bare_iff.1 bare).2.1⟩

end Search

/-- A path is printed with its root. -/
theorem Path.isRooted_ofString_toString (p : Path) : (ofString p.toString).isRooted = p.isRooted := by
  obtain ⟨chars⟩ := p
  rw [isRooted, isRooted, ofString, toString, PathText.ofString, PathText.toList_shown]
  cases chars with
  | nil => rfl
  | cons first rest =>
      cases first with
      | char c => rfl
      | stray bytes => simp [PathChar.shown, PathChar.replacement]

theorem SearchStep.exists_first_row (s : Settings) (t : FileTree) (step : SearchStep) :
    ∃ row more, step.rows s t = row :: more ∧
      (Path.ofString row.path).isRooted = step.path.isRooted := by
  rw [rows]
  cases step.isCode s with
  | true => exact ⟨_, _, rfl, Path.isRooted_ofString_toString step.path⟩
  | false =>
      refine ⟨_, _, rfl, ?_⟩
      rw [FileTree.probe, Path.isRooted_ofString_toString, descriptor,
        Path.isRooted_child _ (by decide)]

namespace Search

theorem exists_first_row {s : Settings} {name : String}
    (near : Name.form name = .relative ∨ Name.form name = .bare) (t : FileTree)
    (origin : Option Path) :
    ∃ row more, (search s .empty t name origin).1.log = row :: more ∧
      (Path.ofString row.path).isRooted = (originDir s origin).isRooted := by
  obtain ⟨first, others, listed, rooted⟩ := @exists_first_candidate s name near origin
  obtain ⟨row, more, shown, same⟩ := first.exists_first_row s t
  rw [search_log, listed, rows, shown]
  exact ⟨row, _, rfl, same.trans rooted⟩

/-- A name that comes from no file is looked for as one that is imported by a file directly in the
working directory, if that directory is rooted. A working directory that is not rooted is read from
the current directory for names in files, and from the root for names that come from none, so that
their traces differ. -/
theorem search_without_file {s : Settings} {name : String} {file : Path} {own : Segment}
    (near : Name.form name = .relative ∨ Name.form name = .bare) (unrooted : file.isRooted = false)
    (single : file.segments = [own]) (down : own ≠ Segment.up) (t : FileTree) :
    (s.workingDir.isRooted = true → ∀ session,
      search s session t name none = search s session t name (some file)) ∧
    (s.workingDir.isRooted = false →
      (search s .empty t name none).1.log ≠ (search s .empty t name (some file)).1.log) ∧
    ∀ session, search s session t name none =
      search s session t name (some ((Path.root.join s.workingDir).join file)) := by
  have beside : originDir s (some file) = s.workingDir.normalize := by
    rw [originDir, Path.folder, Path.anchor_of_not_isRooted unrooted,
      Path.parent?_join unrooted single down, Option.getD_some]
  refine ⟨fun rooted session => ?_, fun relative same => ?_, fun session => ?_⟩
  · apply search_congr
    rw [beside, originDir_none, Path.join_of_isRooted _ rooted]
  · obtain ⟨row, more, log, root⟩ := @exists_first_row s name near t none
    obtain ⟨row', more', log', root'⟩ := @exists_first_row s name near t (some file)
    rw [log, log', List.cons.injEq] at same
    rw [beside, Path.isRooted_normalize, relative, ← same.1, root, originDir] at root'
    rw [Path.isRooted_anchor s.workingDir rfl] at root'
    cases root'
  · apply search_congr
    have rooted : ((Path.root.join s.workingDir).join file).isRooted = true := by
      rw [Path.isRooted_join _ _ unrooted]
      cases root : s.workingDir.isRooted with
      | true => rw [Path.join_of_isRooted _ root, root]
      | false => rw [Path.isRooted_join _ _ root]; rfl
    rw [originDir_none, originDir, Path.folder, Path.anchor_of_isRooted rooted,
      Path.parent?_join unrooted single down, Option.getD_some]

theorem search_without_file_main :
    (search oneRoot .empty .empty "./lib/a.js" none =
      search oneRoot .empty .empty "./lib/a.js" (some (Path.ofString "./main.nako3"))) ∧
    (search (Settings.default fun _ => none) .empty .empty "a.js" none).1.log ≠
      (search (Settings.default fun _ => none) .empty .empty "a.js"
        (some (Path.ofString "./main.nako3"))).1.log := by
  have single : (Path.ofString "./main.nako3").segments = [.ofString "main.nako3"] := by decide
  refine ⟨?_, ?_⟩
  · exact (search_without_file (Or.inl (by decide)) (by decide) single (by decide) .empty).1
      (by decide) .empty
  · exact (search_without_file (Or.inr (by decide)) (by decide) single (by decide) .empty).2.1
      (by decide)

/-- The working directory of the defaults, which is the current one. -/
def inPlace : Settings :=
  { Settings.default (fun _ => none) with installRoot := Path.ofString "/opt/nako" }

/-- A module in the current directory. -/
def workshop : FileTree :=
  { FileTree.empty with current := [.ofString "workshop"] }.write (Path.ofString "/workshop/a.js")
    (.file "export default 1".toUTF8)

/-- The module in the working directory is found for a file that lies there, and missed where the
same name comes from no file. -/
theorem search_misses_workingDir :
    Name.form "a.js" = .bare ∧
    (Path.ofString "main.nako3").segments = [.ofString "main.nako3"] ∧
    (search inPlace .empty workshop "a.js" (some (Path.ofString "main.nako3"))).2 =
      some (.path (Path.ofString "a.js")) ∧
    (search inPlace .empty workshop "a.js" none).2 = none := by
  refine ⟨by decide, by decide, ?_, ?_⟩
  · decide +kernel
  · decide +kernel

end Search

end ScriptImports
