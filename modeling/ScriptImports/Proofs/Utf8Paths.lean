import ScriptImports.Proofs.PlainSearch

/-!
Paths that are UTF-8. Such a path is what it is printed as; and what is made of such paths, by joining
and anchoring them and by putting names into them, is again one. So every path that a search asks for
is UTF-8 if the settings and the importing file are, and then the rows of its log spell its probes.
-/
namespace ScriptImports

namespace PathText

def IsUtf8 (t : PathText) : Prop := ∃ s, t = ofString s

variable {t u : PathText}

theorem isUtf8_ofString (s : String) : IsUtf8 (ofString s) := ⟨s, rfl⟩

theorem IsUtf8.ofString_shown (utf8 : IsUtf8 t) : ofString (shown t) = t := by
  obtain ⟨s, rfl⟩ := utf8
  rw [shown_ofString]

theorem isUtf8_append : IsUtf8 (t ++ u) ↔ IsUtf8 t ∧ IsUtf8 u := by
  constructor
  · rintro ⟨s, whole⟩
    obtain ⟨first, last, _, rfl, rfl⟩ := List.map_eq_append_iff.1 whole.symm
    exact ⟨⟨String.ofList first, by simp [ofString]⟩, String.ofList last, by simp [ofString]⟩
  · rintro ⟨⟨s, rfl⟩, s', rfl⟩
    exact ⟨s ++ s', (ofString_append s s').symm⟩

theorem isUtf8_intercalate {c : Char} {pieces : List PathText} :
    IsUtf8 ([.char c].intercalate pieces) ↔ ∀ piece ∈ pieces, IsUtf8 piece := by
  induction pieces with
  | nil => exact ⟨fun _ => nofun, fun _ => isUtf8_ofString ""⟩
  | cons piece pieces ih =>
      cases pieces with
      | nil => rw [List.intercalate_singleton, List.forall_mem_singleton]
      | cons next pieces =>
          have mark : IsUtf8 [PathChar.char c] := ⟨String.singleton c, by simp [ofString]⟩
          rw [List.intercalate_cons_cons, isUtf8_append, isUtf8_append, ih,
            @List.forall_mem_cons _ _ piece]
          exact and_congr_left fun _ => and_iff_left mark

end PathText

namespace Path

def IsUtf8 (p : Path) : Prop := p.chars.IsUtf8

variable {p q : Path}

theorem isUtf8_ofString (s : String) : (ofString s).IsUtf8 := PathText.isUtf8_ofString s

theorem IsUtf8.ofString_toString (utf8 : p.IsUtf8) : ofString p.toString = p := by
  rw [ofString, toString, PathText.IsUtf8.ofString_shown utf8]

theorem IsUtf8.segments (utf8 : p.IsUtf8) : ∀ s ∈ p.segments, PathText.IsUtf8 s := by
  intro s hs
  rw [IsUtf8, ← @List.intercalate_splitOn _ p.chars _ _ (.char '/'), PathText.isUtf8_intercalate] at utf8
  exact utf8 s (List.mem_filter.1 hs).1

theorem isUtf8_ofSegments {rooted : Bool} {names : List Segment}
    (each : ∀ s ∈ names, PathText.IsUtf8 s) : (ofSegments rooted names).IsUtf8 := by
  refine PathText.isUtf8_append.2 ⟨?_, PathText.isUtf8_intercalate.2 each⟩
  cases rooted with
  | true => exact PathText.isUtf8_ofString "/"
  | false => exact PathText.isUtf8_ofString ""

theorem IsUtf8.normalize (utf8 : p.IsUtf8) : p.normalize.IsUtf8 :=
  isUtf8_ofSegments fun s hs => utf8.segments s (settled_subset p hs)

theorem IsUtf8.join (utf8 : p.IsUtf8) (utf8' : q.IsUtf8) : (p.join q).IsUtf8 := by
  rw [Path.join]
  split
  · exact utf8'
  · split
    · exact PathText.isUtf8_append.2 ⟨utf8, utf8'⟩
    · have slash := PathText.isUtf8_append.2 ⟨PathText.isUtf8_ofString "/", utf8'⟩
      exact PathText.isUtf8_append.2 ⟨utf8, slash⟩

theorem IsUtf8.child (utf8 : p.IsUtf8) (name : String) : (p.child name).IsUtf8 :=
  utf8.join (isUtf8_ofString name)

theorem IsUtf8.anchor (utf8 : p.IsUtf8) (utf8' : q.IsUtf8) : (p.anchor q).IsUtf8 := by
  rw [Path.anchor]
  split
  · exact utf8.normalize
  · exact (utf8'.join utf8).normalize

theorem IsUtf8.folder (utf8 : p.IsUtf8) (utf8' : q.IsUtf8) : (p.folder q).IsUtf8 := by
  have anchored := utf8.anchor utf8'
  rw [Path.folder]
  cases parent : (p.anchor q).parent? with
  | none => exact anchored
  | some above =>
      rw [parent?] at parent
      split at parent
      · split at parent
        · cases parent
          exact isUtf8_ofString ""
        · cases parent
      · cases parent
        exact isUtf8_ofSegments fun s hs => anchored.segments s (List.dropLast_subset _ hs)

end Path

/-- The probe that a row spells. -/
def ProbeRow.spelled (row : ProbeRow) : Probe := ⟨row.label, Path.ofString row.path, row.found⟩

theorem Probe.map_spelled {probes : List Probe} (utf8 : ∀ x ∈ probes, x.path.IsUtf8) :
    (probes.map row).map ProbeRow.spelled = probes := by
  have spelled : ∀ x ∈ probes, x.row.spelled = x := by
    intro x hx
    rw [row, ProbeRow.spelled, (utf8 x hx).ofString_toString]
  rw [List.map_map]
  exact (List.map_congr_left spelled).trans (List.map_id _)

/-- All paths of the settings that a search may start from are UTF-8. -/
structure Settings.IsUtf8 (s : Settings) : Prop where
  installRoot : s.installRoot.IsUtf8
  workingDir : s.workingDir.IsUtf8
  libRoot : ∀ p ∈ s.libRoot, p.IsUtf8
  homeRoot : ∀ p ∈ s.homeRoot, p.IsUtf8
  globalPaths : ∀ p ∈ s.globalPaths, p.IsUtf8

namespace Search

variable {s : Settings} {origin : Option Path}

theorem isUtf8_originDir (utf8 : s.IsUtf8) (importing : ∀ file ∈ origin, file.IsUtf8) :
    (originDir s origin).IsUtf8 := by
  cases origin with
  | none => exact utf8.workingDir.anchor (Path.isUtf8_ofString "/")
  | some file => exact (importing file rfl).folder utf8.workingDir

theorem isUtf8_of_mem_roots (utf8 : s.IsUtf8) (importing : ∀ file ∈ origin, file.IsUtf8)
    {bundled : Bool} : ∀ root ∈ roots s bundled origin, root.path.IsUtf8 := by
  have anchored {p : Path} (hp : p.IsUtf8) := hp.anchor utf8.workingDir
  have install := utf8.installRoot
  intro root hroot
  simp only [roots, List.mem_append, List.mem_cons, List.mem_map, List.mem_flatMap,
    Option.mem_toList, List.not_mem_nil, or_false] at hroot
  rcases hroot with ((((rfl | ofBundled) | lib) | runtime) | home) | globalPath
  · exact isUtf8_originDir utf8 importing
  · cases bundled with
    | false => cases ofBundled
    | true =>
        simp only [↓reduceIte, List.mem_cons, List.not_mem_nil, or_false] at ofBundled
        rcases ofBundled with rfl | rfl
        · exact anchored (install.child _)
        · exact anchored ((install.child _).child _)
  · obtain ⟨lib, hlib, rfl⟩ := lib
    exact anchored (utf8.libRoot lib hlib)
  · rcases runtime with rfl | rfl | rfl
    · exact (anchored install).child _
    · exact anchored ((anchored install).child _)
    · exact anchored (((install.child _).child _).child _)
  · obtain ⟨home, hhome, rfl | rfl⟩ := home
    · exact (anchored (utf8.homeRoot home hhome)).child _
    · exact (anchored (utf8.homeRoot home hhome)).child _
  · obtain ⟨path, hpath, rfl⟩ := globalPath
    exact anchored (utf8.globalPaths path hpath)

theorem isUtf8_of_mem_candidates (utf8 : s.IsUtf8) (importing : ∀ file ∈ origin, file.IsUtf8)
    (name : String) : ∀ step ∈ candidates s name origin, step.path.IsUtf8 := by
  intro step hstep
  rw [candidates] at hstep
  split at hstep
  · cases hstep
  · rw [List.mem_singleton.1 hstep]
    exact (Path.isUtf8_ofString _).anchor utf8.workingDir
  · rw [List.mem_singleton.1 hstep]
    exact (Path.isUtf8_ofString name).anchor (isUtf8_originDir utf8 importing)
  · rw [plan_eq_roots, List.mem_map] at hstep
    obtain ⟨root, hroot, rfl⟩ := hstep
    exact (isUtf8_of_mem_roots utf8 importing root hroot).child name

end Search

end ScriptImports
