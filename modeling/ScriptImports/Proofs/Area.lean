import ScriptImports.Proofs.Actions
import ScriptImports.Proofs.Directories
import ScriptImports.Proofs.Paths

/-!
What staging does to the tree. Once the directory of a staging area is there, all changes are to
files in it; such a change can cut the way to the directory, but cannot lead it elsewhere, and every
path that stays out of the directory leads to what it led to.
-/
namespace ScriptImports

namespace FileTree

/-! Files made and moved in the directory. -/

theorem locate_child_eq_ok {t : FileTree} {p : Path} {name : String} {directory : Place}
    {last : Segment} (some : name ≠ "") (plain : '/' ∉ name.toList)
    (h : t.locate (p.child name) = .ok (directory, last)) :
    t.directoryAt p = .ok directory ∧ last = PathText.ofString name := by
  rw [locate] at h
  split at h
  · cases h
  dsimp only at h
  rw [← Path.names, Path.names_child p some plain, List.dropLast_concat, List.getLast?_concat,
    Option.getD_some] at h
  split at h
  · next place node walked =>
      cases h
      rw [start, Path.isRooted_child p plain] at walked
      rw [directoryAt_eq_ok, start, walked, (walk_on walked).1]
      exact ⟨rfl, rfl⟩
  · cases h
  · cases h

/-- A name that an entry of the directory `p` can be given, and that it is then found under. -/
structure Admits (p : Path) (name : String) : Prop where
  allowed : refuse? (p.child name) = none
  nonempty : name ≠ ""
  plain : '/' ∉ name.toList
  entry : isEntryName (.ofString name) = true
  short : ¬ maxNameBytes < byteCount (.ofString name)

section

variable {t : FileTree} {p : Path} {name : String} {d : Place}

/-- The walk to an entry goes to its directory first. -/
theorem Admits.find (admits : Admits p name) (t : FileTree) (follow : Bool) :
    t.find follow (p.child name) =
      t.walk follow maxLinks (start t.current p) (p.names ++ [.ofString name]) := by
  have some : PathText.ofString name ≠ [] := (PathText.ofString_eq_nil name).not.2 admits.nonempty
  have last : (p.child name).chars.getLast? ≠ Option.some (.char '/') := by
    rw [Path.child, Path.getLast?_join p (Path.ofString name) some]
    exact fun slash => admits.plain ((PathText.char_mem_ofString _ _).1 (List.mem_of_getLast? slash))
  have steps : (p.child name).steps = p.names ++ [.ofString name] := by
    rw [Path.steps, ← Path.names, Path.names_child p admits.nonempty admits.plain, if_neg last,
      List.append_nil]
  rw [FileTree.find, admits.allowed]
  dsimp only
  rw [steps, start, Path.isRooted_child p admits.plain, ← start]

/-- A file is found in a directory as long as the path leads to the directory. -/
theorem find_child {content : ByteArray} (admits : Admits p name) (leads : t.directoryAt p = .ok d)
    (stands : t.node? (d ++ [.ofString name]) = some (.file content)) :
    t.find true (p.child name) = .ok (.entry (d ++ [.ofString name]) (.file content)) := by
  obtain ⟨_, left, goes⟩ := walk_on (directoryAt_eq_ok.1 leads)
  rw [admits.find, goes _ _ (List.cons_ne_nil _ _)]
  apply walk_ended
  rw [advance_stride, stride_entry admits.entry admits.short, stands]
  exact if_pos rfl

/-- Where links are not gone through, what is found is what stands in the directory. -/
theorem find_itself (admits : Admits p name) (leads : t.directoryAt p = .ok d) :
    t.find false (p.child name) = .ok
      (match t.node? (d ++ [.ofString name]) with
      | some node => .entry (d ++ [.ofString name]) node
      | none => .vacant (d ++ [.ofString name])) := by
  obtain ⟨_, left, goes⟩ := walk_on (directoryAt_eq_ok.1 leads)
  rw [admits.find, goes _ _ (List.cons_ne_nil _ _)]
  apply walk_ended
  rw [advance_follow, stride_entry admits.entry admits.short]
  cases t.node? (d ++ [.ofString name]) with
  | none => rfl
  | some node =>
      cases node with
      | directory => exact advance_nil t false _
      | file _ | link _ => rfl

theorem find_child_of_error {fault : Fault} (admits : Admits p name)
    (stops : t.directoryAt p = .error fault) (follow : Bool) :
    t.find follow (p.child name) = .error fault := by
  rw [admits.find]
  exact walk_stops (directoryAt_eq_error.1 stops) follow (List.cons_ne_nil _ _)

/-- What is found under a name stands in a directory that the path leads to. -/
theorem find_itself_eq_ok {found : Found} (admits : Admits p name)
    (h : t.find false (p.child name) = .ok found) :
    ∃ d, t.directoryAt p = .ok d ∧
      found = match t.node? (d ++ [.ofString name]) with
        | some node => .entry (d ++ [.ofString name]) node
        | none => .vacant (d ++ [.ofString name]) := by
  cases leads : t.directoryAt p with
  | error fault =>
      rw [find_child_of_error admits leads] at h
      cases h
  | ok d =>
      rw [find_itself admits leads] at h
      cases h
      exact ⟨d, rfl, rfl⟩

theorem Admits.of_find {follow : Bool} {found : Found} (some : name ≠ "")
    (plain : '/' ∉ name.toList) (entry : isEntryName (.ofString name) = true)
    (short : ¬ maxNameBytes < byteCount (.ofString name))
    (h : t.find follow (p.child name) = .ok found) : Admits p name := by
  refine ⟨?_, some, plain, entry, short⟩
  rw [FileTree.find] at h
  split at h
  · cases h
  · assumption

theorem Admits.fileName (admits : Admits p name) :
    (p.child name).fileName? = some (.ofString name) := by
  have entry := admits.entry
  simp only [isEntryName, Bool.and_eq_true, bne_iff_ne] at entry
  have named : Path.IsName (.ofString name) :=
    ⟨(PathText.ofString_eq_nil name).not.2 admits.nonempty, entry.1,
      (PathText.char_mem_ofString '/' name).not.2 admits.plain⟩
  exact Path.fileName?_child p named entry.2

end

/-- A temporary file of the directory `d`, to which `area` leads. A character in its name tells it
from all targets. -/
structure Temporary.Named (f : Temporary) (area : Path) (d : Place) (name : String) : Prop where
  admits : Admits area name
  path : f.path = area.child name
  place : f.place = d ++ [.ofString name]
  tilde : '~' ∈ name.toList

theorem mem_temporaryNames {name : String} (h : name ∈ temporaryNames) :
    ∃ n ≤ maxNameBytes, 0 < n ∧ name.toList = List.replicate n '~' := by
  obtain ⟨n, inside, rfl⟩ := List.mem_map.1 h
  have bound := List.mem_range.1 inside
  exact ⟨n + 10, by simp only [maxNameBytes]; omega, by omega, String.toList_ofList⟩

theorem byteCount_tildes (n : Nat) : byteCount (List.replicate n (.char '~')) = n := by
  induction n with
  | zero => rfl
  | succ n ih =>
      rw [byteCount, List.replicate_succ, List.map_cons, List.foldr_cons, ← byteCount, ih]
      have one : PathChar.size (.char '~') = 1 := rfl
      omega

theorem makeFirst_eq_ok {t made : FileTree} {p : Path} {names : List String} {f : Temporary}
    (h : t.makeFirst p names = .ok (made, f)) :
    ∃ name ∈ names, f.path = p.child name ∧ t.find false f.path = .ok (.vacant f.place) ∧
      made = t.put f.place (.file .empty) := by
  induction names with
  | nil => cases h
  | cons name names ih =>
      rw [makeFirst] at h
      split at h
      · next place found =>
          cases h
          exact ⟨name, List.mem_cons_self, rfl, found, rfl⟩
      · obtain ⟨other, hother, rest⟩ := ih h
        exact ⟨other, List.mem_cons_of_mem name hother, rest⟩
      · cases h

/-- A temporary file is made at a place that was free. -/
theorem makeTemporary_eq_ok {t made : FileTree} {p : Path} {f : Temporary}
    (h : t.makeTemporary p = .ok (made, f)) :
    ∃ d name, t.directoryAt p = .ok d ∧ f.Named p d name ∧ t.node? f.place = none ∧
      made = t.put f.place (.file .empty) := by
  obtain ⟨name, hname, path, found, rfl⟩ := makeFirst_eq_ok h
  obtain ⟨n, short, some, tildes⟩ := mem_temporaryNames hname
  have text : PathText.ofString name = List.replicate n (.char '~') := by
    rw [PathText.ofString, tildes, List.map_replicate]
  have tilde : '~' ∈ name.toList := by
    rw [tildes]
    exact List.mem_replicate.2 ⟨by omega, rfl⟩
  have same {s : PathText} (h : PathText.ofString name = s) (hs : s ≠ []) : .char '~' ∈ s :=
    h ▸ (PathText.char_mem_ofString _ _).2 tilde
  have entry : isEntryName (.ofString name) = true := by
    rw [isEntryName, Bool.and_eq_true, bne_iff_ne, bne_iff_ne]
    exact ⟨fun h => absurd (same h (by decide)) (by decide),
      fun h => absurd (same h (by decide)) (by decide)⟩
  rw [path] at found
  have admits : Admits p name := by
    apply Admits.of_find _ _ entry _ found
    · rintro rfl
      cases tilde
    · rw [tildes]
      intro slash
      exact absurd (List.eq_of_mem_replicate slash) (by decide)
    · rw [text, byteCount_tildes]
      omega
  obtain ⟨d, leads, vacant⟩ := find_itself_eq_ok admits found
  refine ⟨d, name, leads, ?_⟩
  cases stands : t.node? (d ++ [.ofString name]) with
  | some node =>
      rw [stands] at vacant
      cases vacant
  | none =>
      rw [stands] at vacant
      have place : f.place = d ++ [.ofString name] := Found.vacant.inj vacant
      exact ⟨⟨admits, path, place, tilde⟩, place ▸ stands, rfl⟩

theorem fill_eq_ok {t t' : FileTree} {place : Place} {content : ByteArray}
    (h : t.fill place content = (t', .ok ())) : t' = t.put place (.file content) := by
  rw [fill] at h
  split at h
  · cases h
  · exact (congrArg Prod.fst h).symm

theorem fill_eq_error {t t' : FileTree} {place : Place} {content : ByteArray} {fault : Fault}
    (h : t.fill place content = (t', .error fault)) :
    ∃ written, t' = t.put place (.file written) := by
  rw [fill] at h
  split at h
  · exact ⟨_, (congrArg Prod.fst h).symm⟩
  · cases h

/-- A file is moved inside the directory that the path before both names leads to. An empty name is
none: the path then ends in a slash. -/
theorem moveFile_child_eq_ok {t moved : FileTree} {p : Path} {source name : String}
    (admits : Admits p source) (plain : '/' ∉ name.toList)
    (h : t.moveFile (p.child source) (p.child name) = .ok moved) :
    Admits p name ∧
    ∃ d node, t.directoryAt p = .ok d ∧ t.node? (d ++ [.ofString source]) = some node ∧
      t.node? (d ++ [.ofString name]) ≠ some .directory ∧
      moved = (t.erase (d ++ [.ofString source])).put (d ++ [.ofString name]) node := by
  rw [moveFile] at h
  split at h
  · cases h
  · cases h
  next place node found =>
  split at h
  · cases h
  next directory last located =>
  split at h
  · cases h
  next entry =>
  rw [Bool.not_eq_true', Bool.not_eq_false] at entry
  split at h
  · cases h
  next short =>
  split at h
  · cases h
  next ends =>
  split at h
  · cases h
  next free =>
  cases h
  by_cases some : name = ""
  · rw [Path.child, Path.join, Path.ofString, some, PathText.ofString_empty] at ends located
    by_cases slash : p.chars = [] ∨ p.chars.getLast? = Option.some (.char '/')
    · cases slash with
      | inl nothing =>
          simp [locate, refuse?, Path.isRooted, nothing] at located
      | inr slash => simp [Path.isRooted, slash] at ends
    · simp [Path.isRooted, slash] at ends
  · have allowed : refuse? (p.child name) = none := by
      rw [locate] at located
      split at located
      · cases located
      · assumption
    obtain ⟨leads, rfl⟩ := locate_child_eq_ok some plain located
    obtain ⟨d, leads', stood⟩ := find_itself_eq_ok admits found
    rw [leads] at leads'
    cases leads'
    refine ⟨⟨allowed, some, plain, entry, short⟩, directory, node, leads, ?_⟩
    cases stands : t.node? (directory ++ [.ofString source]) with
    | none =>
        rw [stands] at stood
        cases stood
    | some _ =>
        rw [stands] at stood
        cases stood
        exact ⟨rfl, free, rfl⟩

section

variable {t : FileTree} {p : Path} {name : String} {d : Place}

/-- A file is removed as long as the path leads to its directory. -/
theorem unlink_child {content : ByteArray} (admits : Admits p name)
    (leads : t.directoryAt p = .ok d)
    (stands : t.node? (d ++ [.ofString name]) = some (.file content)) :
    t.unlink (p.child name) = t.erase (d ++ [.ofString name]) := by
  rw [unlink, find_itself admits leads, stands]

theorem unlink_child_of_error {fault : Fault} (admits : Admits p name)
    (stops : t.directoryAt p = .error fault) : t.unlink (p.child name) = t := by
  rw [unlink, find_child_of_error admits stops]

end

theorem readBytes_child {t : FileTree} {p : Path} {name : String} {d : Place}
    {content : ByteArray} (admits : Admits p name) (leads : t.directoryAt p = .ok d)
    (stands : t.node? (d ++ [.ofString name]) = some (.file content)) :
    t.readBytes (p.child name) = .ok content := by
  rw [readBytes, lookAt, find_child admits leads stands]

theorem directoryAt_put_of_cut {t : FileTree} {p : Path}
    (cut : t.directoryAt p = .error .notDirectory) (q : Place) (content : ByteArray) :
    (t.put q (.file content)).directoryAt p = .error .notDirectory := by
  cases (Overlays.put_file t q content).directoryAt p with
  | inl same => rw [same, cut]
  | inr stops => exact stops

/-- `t` is `base`, in which `p` leads to the directory `d`, but for changes in that directory. They
may have put a file in the way, so that `p` leads nowhere any more. -/
structure Kept (base : FileTree) (p : Path) (d : Place) (t : FileTree) : Prop where
  current : t.current = base.current
  outside (q : Place) : (∀ s, q ≠ d ++ [s]) → t.node? q = base.node? q
  leads : t.directoryAt p = .ok d ∨ t.directoryAt p = .error .notDirectory

namespace Kept

variable {base t : FileTree} {p : Path} {d : Place}

theorem refl (h : base.directoryAt p = .ok d) : Kept base p d base :=
  ⟨rfl, fun _ _ => rfl, Or.inl h⟩

theorem directoryAt_eq (kept : Kept base p d t) {place : Place} (h : t.directoryAt p = .ok place) :
    place = d := by
  cases kept.leads with
  | inl leads =>
      rw [leads] at h
      cases h
      rfl
  | inr stops =>
      rw [stops] at h
      cases h

theorem put_file (kept : Kept base p d t) (s : Segment) (content : ByteArray) :
    Kept base p d (t.put (d ++ [s]) (.file content)) := by
  refine ⟨kept.current, fun q other => ?_, ?_⟩
  · rw [← kept.outside q other]
    exact node?_put_of_ne t _ (other s)
  · cases (Overlays.put_file t (d ++ [s]) content).directoryAt p with
    | inl same =>
        rw [same]
        exact kept.leads
    | inr stops => exact Or.inr stops

/-- A file in the directory is taken away while the path leads there. -/
theorem erase_file (kept : Kept base p d t) (leads : t.directoryAt p = .ok d) {s : Segment}
    {content : ByteArray} (stood : t.node? (d ++ [s]) = some (.file content)) :
    Kept base p d (t.erase (d ++ [s])) := by
  have overlays : Overlays (t.erase (d ++ [s])) t := by
    refine ⟨rfl, fun q => ?_⟩
    cases t.node?_erase_cases (d ++ [s]) q with
    | inl same => exact Or.inl same.symm
    | inr gone =>
        obtain ⟨rfl, _⟩ := gone
        exact Or.inr ⟨content, stood⟩
  refine ⟨kept.current, fun q other => ?_, Or.inl ?_⟩
  · rw [← kept.outside q other]
    exact node?_erase_of_ne t (other s)
  · cases overlays.directoryAt p with
    | inl same => rw [← same, leads]
    | inr stops => exact absurd stops (directoryAt_ne_error leads)

theorem makeDirectories (kept : Kept base p d t) : (t.makeDirectories p).1 = t := by
  apply makeDirectories_eq_self
  intro missing
  cases kept.leads with
  | inl leads => exact absurd missing (directoryAt_ne_error leads)
  | inr stops =>
      rw [stops] at missing
      cases missing

/-- A path whose walk stays out of the directory leads to what it led to. -/
theorem find (kept : Kept base p d t) {r : Path}
    (apart : ∀ q ∈ base.consulted r, d <+: q → q = d) : t.find true r = base.find true r := by
  apply find_congr kept.current
  intro q hq
  apply kept.outside
  intro s below
  have same := apart q hq (below ▸ List.prefix_append d [s])
  rw [same] at below
  exact absurd below (by simp)

end Kept

/-- The walk along `p` goes through the directory that `area` leads to. -/
def LiesIn (t : FileTree) (p area : Path) : Prop :=
  ∃ d, t.directoryAt area = .ok d ∧ ∃ q ∈ t.consulted p, d <+: q ∧ q ≠ d

/-- `t` is what came of `base` after the directory `area` was made, by changes in it alone. -/
def Settled (base : FileTree) (area : Path) (t : FileTree) : Prop :=
  ∃ d, (base.makeDirectories area).1.directoryAt area = .ok d ∧
    Kept (base.makeDirectories area).1 area d t

theorem Settled.find {base t : FileTree} {p area : Path} (settled : Settled base area t)
    (apart : ¬ LiesIn (base.makeDirectories area).1 p area) :
    t.find true p = (base.makeDirectories area).1.find true p := by
  obtain ⟨d, leads, kept⟩ := settled
  apply kept.find
  intro q hq below
  by_cases same : q = d
  · exact same
  · exact absurd ⟨d, leads, q, hq, below, same⟩ apart

theorem isFile_eq_true {t : FileTree} {p : Path} (h : t.isFile p = true) :
    ∃ place content, t.find true p = .ok (.entry place (.file content)) := by
  rw [isFile, lookAt] at h
  split at h
  · next content looked =>
      split at looked
      · next place node found =>
          cases looked
          exact ⟨place, content, found⟩
      · cases looked
      · cases looked
  · cases h

theorem isFile_of_readText {t : FileTree} {p : Path} {text : String}
    (h : t.readText p = .ok text) : t.isFile p = true := by
  rw [readText, readBytes] at h
  rw [isFile]
  cases looked : t.lookAt p with
  | error fault =>
      rw [looked] at h
      cases h
  | ok node =>
      rw [looked] at h
      cases node with
      | file content => rfl
      | link _ | directory => cases h

theorem readText_congr {t u : FileTree} {p : Path} (h : u.find true p = t.find true p) :
    u.readText p = t.readText p := by
  rw [readText, readText, readBytes, readBytes, lookAt, lookAt, h]

/-- Where nothing of the staging area is on the way, a text that was read at one time is there at
every later time, and was there at first if there was a file at all. -/
theorem readText_stays {base t t' : FileTree} {p area : Path} {text : String}
    (reached : t = base ∨ Settled base area t) (reached' : t' = base ∨ Settled base area t')
    (stays : Settled base area t → Settled base area t')
    (apart : ¬ LiesIn (base.makeDirectories area).1 p area) (h : t.readText p = .ok text) :
    t'.readText p = .ok text ∧ (base.isFile p = true → base.readText p = .ok text) := by
  have made : base.isFile p = true →
      (base.makeDirectories area).1.find true p = base.find true p := by
    intro file
    obtain ⟨place, content, found⟩ := isFile_eq_true file
    rw [found]
    exact (makeDirectories_paved base area).grows.find found
  by_cases settled : Settled base area t
  · have read : t.find true p = t'.find true p :=
      (settled.find apart).trans ((stays settled).find apart).symm
    refine ⟨by rw [← readText_congr read, h], fun file => ?_⟩
    rw [← h]
    exact (readText_congr ((settled.find apart).trans (made file))).symm
  · cases reached.resolve_right settled
    refine ⟨?_, fun _ => h⟩
    cases reached' with
    | inl same => rw [same, h]
    | inr later =>
        rw [← h]
        exact readText_congr ((later.find apart).trans (made (isFile_of_readText h)))

/-- At a place where a temporary file may be there is nothing else. -/
def FileOrFree (t : FileTree) (q : Place) : Prop :=
  ∀ node, t.node? q = some node → ∃ content, node = .file content

theorem FileOrFree.put_file {t : FileTree} {q : Place} (free : t.FileOrFree q) (r : Place)
    (content : ByteArray) : (t.put r (.file content)).FileOrFree q := by
  intro node stands
  cases t.node?_put_cases r q (.file content) with
  | inl same => exact free node (same ▸ stands)
  | inr file =>
      rw [file.2] at stands
      exact ⟨content, (Option.some.inj stands).symm⟩

theorem FileOrFree.erase {t : FileTree} {q : Place} (free : t.FileOrFree q) (r : Place) :
    (t.erase r).FileOrFree q := by
  intro node stands
  cases t.node?_erase_cases r q with
  | inl same => exact free node (same ▸ stands)
  | inr gone =>
      rw [gone.2] at stands
      cases stands

end FileTree

open FileTree

theorem Staging.not_mem_flatten {c : Char} (odd : isPlain c = false) (other : c ≠ '_')
    (url : String) : c ∉ (flatten url).toList := by
  rw [flatten, String.toList_ofList]
  intro there
  obtain ⟨c', _, flat⟩ := List.mem_map.1 there
  split at flat
  · next plain =>
      rw [flat, odd] at plain
      cases plain
  · exact other flat.symm

theorem Staging.slash_not_mem_flatten (url : String) : '/' ∉ (flatten url).toList :=
  not_mem_flatten (by decide) (by decide) url

/-- What a staging that has come so far can rely on, when all started from the tree `base`. -/
def StagePhase.Fits (base : FileTree) (area : Path) (t : FileTree) : StagePhase → Prop
  | .begun => True
  | .directoryMade | .moved => Settled base area t
  | .opened temporary | .written temporary =>
    ∃ d name, (base.makeDirectories area).1.directoryAt area = .ok d ∧
      Kept (base.makeDirectories area).1 area d t ∧ temporary.Named area d name ∧
      t.FileOrFree temporary.place

/-- The tree may change from `t` to `t'` while other stagings are under way. -/
structure StagePhase.Allows (base : FileTree) (area : Path) (t t' : FileTree) : Prop where
  reaches : t' = base ∨ Settled base area t'
  keeps (phase : StagePhase) : phase.Fits base area t → phase.Fits base area t'

namespace StagePhase

variable {base t t' : FileTree} {area : Path}

theorem Allows.of_kept {d : Place} (leads : (base.makeDirectories area).1.directoryAt area = .ok d)
    (after : Kept (base.makeDirectories area).1 area d t')
    (files : ∀ q, t.FileOrFree q → t'.FileOrFree q) : Allows base area t t' := by
  have settled : Settled base area t' := ⟨d, leads, after⟩
  refine ⟨Or.inr settled, fun phase fits => ?_⟩
  cases phase with
  | begun => trivial
  | directoryMade | moved => exact settled
  | opened temporary | written temporary =>
      obtain ⟨d', name, leads', _, named, free⟩ := fits
      rw [leads] at leads'
      cases leads'
      exact ⟨d, name, leads, after, named, files _ free⟩

/-- The first staging makes the directory, and the others find it made. -/
theorem Allows.makeDirectories (reached : t = base ∨ Settled base area t)
    (made : t.makeDirectories area = (t', .ok ())) :
    Allows base area t t' ∧ Settled base area t' := by
  have tree : (t.makeDirectories area).1 = t' := congrArg Prod.fst made
  by_cases settled : Settled base area t
  · obtain ⟨d, leads, kept⟩ := settled
    rw [kept.makeDirectories] at tree
    rw [← tree]
    exact ⟨of_kept leads kept fun _ free => free, d, leads, kept⟩
  · cases reached.resolve_right settled
    obtain ⟨d, leads⟩ := makeDirectories_eq_ok made
    have here : Settled base area t' := by
      refine ⟨d, ?_, ?_⟩
      · rw [tree]
        exact leads
      · rw [tree]
        exact Kept.refl leads
    refine ⟨⟨Or.inr here, fun phase fits => ?_⟩, here⟩
    -- nobody relies on a directory that is not made yet
    cases phase with
    | begun => trivial
    | directoryMade | moved => exact here
    | opened _ | written _ =>
        obtain ⟨d, name, leads, kept, _⟩ := fits
        exact absurd ⟨d, leads, kept⟩ settled

end StagePhase

/-- An action that does not fail keeps to the staging area, and what it comes to can rely on that as
all the others can. -/
theorem StagedWrite.Goes.allows {s : Staging} {base t t' : FileTree} {w w' : StagedWrite}
    (goes : w.Goes s t t' w') (reached : t = base ∨ Settled base s.directory t)
    (fits : w.phase.Fits base s.directory t) :
    StagePhase.Allows base s.directory t t' ∧ w'.phase.Fits base s.directory t' := by
  cases goes with
  | makes made => exact StagePhase.Allows.makeDirectories reached made
  | opens made =>
      obtain ⟨directory, name, leads', named, _, rfl⟩ := makeTemporary_eq_ok made
      obtain ⟨d, leads, kept⟩ := fits
      cases kept.directoryAt_eq leads'
      have kept' := kept.put_file (.ofString name) .empty
      rw [← named.place] at kept'
      have allows := StagePhase.Allows.of_kept leads kept' fun q free => free.put_file _ _
      refine ⟨allows, _, name, leads, kept', named, ?_⟩
      intro node stands
      rw [node?_put_self _ _ (by simp [named.place])] at stands
      exact ⟨.empty, (Option.some.inj stands).symm⟩
  | @writes _ url body temporary filled =>
      obtain ⟨d, name, leads, kept, named, free⟩ := fits
      cases fill_eq_ok filled
      have kept' := kept.put_file (.ofString name) body
      rw [← named.place] at kept'
      have allows := StagePhase.Allows.of_kept leads kept' fun q free => free.put_file _ _
      exact ⟨allows, d, name, leads, kept', named, free.put_file _ _⟩
  | @moves _ url body temporary moved =>
      obtain ⟨d, name, leads, kept, named, free⟩ := fits
      rw [named.path] at moved
      obtain ⟨_, directory, node, leads', stood, _, rfl⟩ :=
        moveFile_child_eq_ok named.admits (Staging.slash_not_mem_flatten url) moved
      cases kept.directoryAt_eq leads'
      rw [named.place] at free
      obtain ⟨content, rfl⟩ := free node stood
      have kept' := (kept.erase_file leads' stood).put_file (.ofString (Staging.flatten url)) content
      have allows := StagePhase.Allows.of_kept leads kept' fun q free =>
        (free.erase _).put_file _ _
      exact ⟨allows, _, leads, kept'⟩

end ScriptImports
