import ScriptImports.Proofs.Paths
import ScriptImports.Proofs.Walk

/-!
The directory that a path leads to when it is read as the way to one, and what making directories
has to do with it: where the path leads to nothing they are made, and elsewhere nothing changes.
-/
namespace ScriptImports

namespace Path

def names (p : Path) : List Segment := p.pieces.filter (· != [])

theorem names_slash (above below : PathText) :
    names ⟨above ++ .char '/' :: below⟩ = names ⟨above⟩ ++ names ⟨below⟩ := by
  rw [names, names, names, pieces, pieces, pieces, List.splitOn_append_cons_self, List.filter_append]

@[simp] theorem names_empty : names ⟨[]⟩ = [] := rfl

theorem names_name {t : PathText} (some : t ≠ []) (plain : .char '/' ∉ t) : names ⟨t⟩ = [t] := by
  rw [names, pieces, List.splitOn_eq_singleton plain]
  simpa using some

theorem names_join (base p : Path) (h : p.isRooted = false) :
    (base.join p).names = base.names ++ p.names := by
  rw [join, h]
  simp only [Bool.false_eq_true, ↓reduceIte]
  split
  · next ends =>
      rcases ends with nothing | slash
      · obtain ⟨cs⟩ := base
        cases nothing
        simp
      · obtain ⟨above, whole⟩ := List.getLast?_eq_some_iff.1 slash
        have base_eq : base = ⟨above ++ .char '/' :: []⟩ := by rw [← whole]
        rw [whole, List.append_assoc, List.singleton_append, names_slash, base_eq, names_slash]
        simp
  · exact names_slash base.chars p.chars

theorem segments_eq_names (p : Path) : p.segments = p.names.filter (· != Segment.here) := by
  rw [segments, names, List.filter_filter]
  simp only [Bool.and_comm]

theorem segments_join (base p : Path) (h : p.isRooted = false) :
    (base.join p).segments = base.segments ++ p.segments := by
  simp only [segments_eq_names, names_join base p h, List.filter_append]

theorem isRooted_join (base p : Path) (h : p.isRooted = false) :
    (base.join p).isRooted = base.isRooted := by
  rw [join, h]
  simp only [Bool.false_eq_true, ↓reduceIte]
  cases hc : base.chars with
  | nil => simp_all [isRooted]
  | cons c cs => split <;> simp [isRooted, hc]

theorem getLast?_join (base p : Path) (some : p.chars ≠ []) :
    (base.join p).chars.getLast? = p.chars.getLast? := by
  obtain ⟨cs, c, ends⟩ := List.eq_nil_or_concat p.chars |>.resolve_left some
  rw [join]
  split
  · rfl
  split
  · simp [ends]
  · simp only [ends, List.concat_eq_append]
    rw [← List.cons_append, ← List.append_assoc, List.getLast?_concat, List.getLast?_concat]

section

variable {name : String}

theorem isRooted_child (p : Path) (plain : '/' ∉ name.toList) :
    (p.child name).isRooted = p.isRooted := by
  rw [child, isRooted_join _ _ (isRooted_ofString plain)]

theorem names_child (p : Path) (some : name ≠ "") (plain : '/' ∉ name.toList) :
    (p.child name).names = p.names ++ [.ofString name] := by
  rw [child, names_join _ _ (isRooted_ofString plain), ofString,
    names_name ((PathText.ofString_eq_nil name).not.2 some)
      ((PathText.char_mem_ofString '/' name).not.2 plain)]

theorem segments_child (p : Path) (named : IsName (.ofString name)) :
    (p.child name).segments = p.segments ++ [.ofString name] := by
  rw [segments_eq_names, names_child p (by simpa using named.1) (by simpa using named.2.2),
    List.filter_append, ← segments_eq_names]
  simpa using named.2.1

theorem fileName?_child (p : Path) (named : IsName (.ofString name))
    (down : PathText.ofString name ≠ Segment.up) : (p.child name).fileName? = some (.ofString name) := by
  rw [fileName?, segments_child p named, List.getLast?_concat]
  simpa using down

end

theorem steps_inside (p : Path) : (p.join (ofString ".")).steps = p.names ++ [Segment.here] := by
  have dot : (ofString ".").names = [Segment.here] := by decide
  have last : (p.join (ofString ".")).chars.getLast? = some (.char '.') := getLast?_join p _ (by decide)
  rw [steps, ← names, names_join p _ (by decide), dot, last]
  simp

end Path

namespace FileTree

/-- The directory that a path leads to, with a `.` at its end. -/
def directoryAt (t : FileTree) (p : Path) : Except Fault Place :=
  match t.walk true maxLinks (start t.current p) (p.names ++ [Segment.here]) with
  | .ok (.entry place _) => .ok place
  | .ok (.vacant _) => .error .notFound
  | .error fault => .error fault

theorem walk_directoryAt (t : FileTree) (p : Path) :
    t.walk true maxLinks (start t.current p) (p.names ++ [Segment.here]) =
      match t.directoryAt p with
      | .ok place => .ok (.entry place .directory)
      | .error fault => .error fault := by
  rw [directoryAt]
  cases h : t.walk true maxLinks (start t.current p) (p.names ++ [Segment.here]) with
  | error fault => rfl
  | ok found =>
      cases found with
      | entry place node => rw [(walk_on h).1]
      | vacant place => exact absurd h walk_here_ne_vacant

theorem directoryAt_eq_ok {t : FileTree} {p : Path} {place : Place} :
    t.directoryAt p = .ok place ↔
      t.walk true maxLinks (start t.current p) (p.names ++ [Segment.here]) =
        .ok (.entry place .directory) := by
  rw [walk_directoryAt]
  cases t.directoryAt p <;> simp

theorem directoryAt_eq_error {t : FileTree} {p : Path} {fault : Fault} :
    t.directoryAt p = .error fault ↔
      t.walk true maxLinks (start t.current p) (p.names ++ [Segment.here]) = .error fault := by
  rw [walk_directoryAt]
  cases t.directoryAt p <;> simp

theorem directoryAt_ne_error {t : FileTree} {p : Path} {place : Place} {fault : Fault}
    (leads : t.directoryAt p = .ok place) : t.directoryAt p ≠ .error fault := by
  rw [leads]
  intro stops
  cases stops

theorem directoryAt_congr {t u : FileTree} (current : u.current = t.current) (p : Path)
    (same : ∀ q ∈ t.consulted (p.join (Path.ofString ".")), u.node? q = t.node? q) :
    u.directoryAt p = t.directoryAt p := by
  rw [consulted, Path.steps_inside, start, Path.isRooted_join p _ (by decide), ← start] at same
  rw [directoryAt, directoryAt, current, walk_congr _ _ _ same]

theorem Grows.directoryAt {t u : FileTree} (grows : Grows t u) {p : Path} {place : Place}
    (h : t.directoryAt p = .ok place) : u.directoryAt p = .ok place := by
  rw [directoryAt_eq_ok] at h ⊢
  rw [grows.current]
  exact grows.walk h

theorem Carries.directoryAt {t u : FileTree} (carries : Carries t u) {p : Path} {place : Place}
    (h : t.directoryAt p = .ok place) : u.directoryAt p = .ok place := by
  rw [directoryAt_eq_ok] at h ⊢
  rw [carries.current]
  exact carries.walk h

theorem Overlays.directoryAt {t u : FileTree} (overlays : Overlays t u) (p : Path) :
    u.directoryAt p = t.directoryAt p ∨ u.directoryAt p = .error .notDirectory := by
  rw [directoryAt_eq_error, FileTree.directoryAt, FileTree.directoryAt, overlays.current]
  cases overlays.walk maxLinks (start t.current p) p.names with
  | inl same => exact Or.inl (by rw [same])
  | inr stopped => exact Or.inr stopped

theorem directoryAt_of_find {t : FileTree} {p : Path} {place : Place}
    (h : t.find true p = .ok (.entry place .directory)) : t.directoryAt p = .ok place := by
  rw [find] at h
  rw [directoryAt_eq_ok]
  split at h
  · cases h
  rw [Path.steps, ← Path.names] at h
  split at h
  · exact h
  · rw [List.append_nil] at h
    exact walk_concat_here h

/-! Directories made along a path. -/

/-- An entry that is located stands in the directory that all but the last name lead to. -/
theorem locate_eq_ok {t : FileTree} {p : Path} {directory : Place} {name : Segment}
    (h : t.locate p = .ok (directory, name)) (entry : isEntryName name = true) :
    ∃ xs, p.names = xs ++ [name] ∧
      t.walk true maxLinks (start t.current p) (xs ++ [Segment.here]) =
        .ok (.entry directory .directory) := by
  rw [locate] at h
  split at h
  · cases h
  dsimp only at h
  split at h
  · next place node walked =>
      have last : p.names.getLast?.getD Segment.here = name := congrArg Prod.snd (Except.ok.inj h)
      have directories : place = directory := congrArg Prod.fst (Except.ok.inj h)
      cases hp : p.names.getLast? with
      | none =>
          rw [hp, Option.getD_none] at last
          rw [← last] at entry
          exact absurd entry (by decide)
      | some s =>
          rw [hp, Option.getD_some] at last
          obtain ⟨xs, names⟩ := List.getLast?_eq_some_iff.1 hp
          refine ⟨xs, by rw [names, last], ?_⟩
          rw [← Path.names, names, List.dropLast_concat] at walked
          rw [← directories, walked, (walk_on walked).1]
  · cases h
  · cases h

theorem stride_entry {t : FileTree} {here : Place} {s : Segment} (entry : isEntryName s = true)
    (short : ¬ maxNameBytes < byteCount s) :
    t.stride here s = .at (here ++ [s]) (t.node? (here ++ [s])) := by
  simp only [isEntryName, Bool.and_eq_true, bne_iff_ne] at entry
  rw [stride, if_neg entry.1, if_neg entry.2, if_neg short]

/-- A directory is only made where the path leads to nothing, and then the path leads to it and
nothing else has changed. -/
theorem makeDirectory_eq_ok {t made : FileTree} {p : Path} (h : t.makeDirectory p = .ok made) :
    Grows t made ∧ t.directoryAt p = .error .notFound ∧
      ∃ place, made.directoryAt p = .ok place ∧ ∀ q, q ≠ place → made.node? q = t.node? q := by
  rw [makeDirectory] at h
  split at h
  · cases h
  · next directory name located =>
      split at h
      · cases h
      next entry =>
      rw [Bool.not_eq_true', Bool.not_eq_false] at entry
      split at h
      · cases h
      next short =>
      split at h
      · next nothing =>
          cases h
          obtain ⟨xs, names, walked⟩ := locate_eq_ok located entry
          have grows : Grows t (t.put (directory ++ [name]) .directory) := Grows.put_directory nothing
          refine ⟨grows, ?_, directory ++ [name], ?_, ?_⟩
          · obtain ⟨_, left, goes⟩ := walk_on walked
            rw [directoryAt_eq_error, names, List.append_assoc, List.singleton_append,
              goes _ _ (List.cons_ne_nil _ _)]
            apply walk_error
            rw [advance_stride, stride_entry entry short, nothing]
            exact if_neg (List.cons_ne_nil _ _)
          · obtain ⟨_, left, goes⟩ := walk_on (grows.walk walked)
            have made : (t.put (directory ++ [name]) .directory).node? (directory ++ [name]) =
                some .directory :=
              node?_put_self t _ (by simp)
            rw [directoryAt_eq_ok, names, List.append_assoc, List.singleton_append]
            refine (goes _ _ (List.cons_ne_nil _ _)).trans (walk_ended ?_)
            rw [advance_stride, stride_entry entry short, made]
            dsimp only [Stride.at]
            rw [advance_stride, stride_here]
            exact advance_nil _ _ _
          · exact fun q other => node?_put_of_ne t _ other
      · cases h

theorem refuse?_eq_notFound {p : Path} (h : refuse? p = some .notFound) : p = Path.empty := by
  rw [refuse?] at h
  split at h
  · cases h
  split at h
  · next nothing => exact congrArg Path.mk nothing
  split at h
  · cases h
  · cases h

theorem locate_eq_notFound {t : FileTree} {p : Path} (some : p ≠ Path.empty)
    (h : t.locate p = .error .notFound) : t.directoryAt p = .error .notFound := by
  rw [locate] at h
  split at h
  · next fault refused =>
      cases h
      exact absurd (refuse?_eq_notFound refused) some
  dsimp only at h
  rw [← Path.names] at h
  split at h
  · cases h
  · next vacant => exact absurd vacant walk_here_ne_vacant
  · next fault stops =>
      cases h
      rw [directoryAt_eq_error]
      obtain none | ⟨xs, name, names⟩ := List.eq_nil_or_concat p.names
      · rw [none, List.dropLast_nil, List.nil_append, walk_here] at stops
        cases stops
      · rw [names, List.concat_eq_append, List.dropLast_concat] at stops
        rw [names, List.concat_eq_append, List.append_assoc]
        exact walk_stops stops true (by simp)

theorem makeDirectory_eq_notFound {t : FileTree} {p : Path} (some : p ≠ Path.empty)
    (h : t.makeDirectory p = .error .notFound) : t.directoryAt p = .error .notFound := by
  rw [makeDirectory] at h
  split at h
  · next fault failed =>
      cases h
      exact locate_eq_notFound some failed
  · split at h
    · cases h
    split at h
    · cases h
    split at h
    · cases h
    · cases h

/-- `u` is `t`, in which directories have been made where some of `paths` lead. -/
structure Paved (paths : List Path) (t u : FileTree) : Prop where
  grows : Grows t u
  along (q : Place) : u.node? q = t.node? q ∨ ∃ p ∈ paths, u.directoryAt p = .ok q

namespace Paved

variable {paths : List Path} {t u v : FileTree}

theorem refl (paths : List Path) (t : FileTree) : Paved paths t t :=
  ⟨.refl t, fun _ => Or.inl rfl⟩

theorem trans (first : Paved paths t u) (second : Paved paths u v) : Paved paths t v := by
  refine ⟨first.grows.trans second.grows, fun q => ?_⟩
  rcases second.along q with same | made
  · rw [same]
    rcases first.along q with same | ⟨p, hp, leads⟩
    · exact Or.inl same
    · exact Or.inr ⟨p, hp, second.grows.directoryAt leads⟩
  · exact Or.inr made

theorem mono {more : List Path} (paved : Paved paths t u) (sub : ∀ p ∈ paths, p ∈ more) :
    Paved more t u := by
  refine ⟨paved.grows, fun q => ?_⟩
  rcases paved.along q with same | ⟨p, hp, leads⟩
  · exact Or.inl same
  · exact Or.inr ⟨p, sub p hp, leads⟩

theorem makeDirectory {p : Path} (hp : p ∈ paths) (h : t.makeDirectory p = .ok u) :
    Paved paths t u := by
  obtain ⟨grows, _, place, leads, others⟩ := makeDirectory_eq_ok h
  refine ⟨grows, fun q => ?_⟩
  by_cases here : q = place
  · exact Or.inr ⟨p, hp, here ▸ leads⟩
  · exact Or.inl (others q here)

end Paved

theorem makeAll_paved (t : FileTree) (paths : List Path) : Paved paths t (t.makeAll paths).1 := by
  induction paths generalizing t with
  | nil => exact Paved.refl [] t
  | cons p above ih =>
      have more : ∀ q ∈ above, q ∈ p :: above := fun q hq => List.mem_cons_of_mem p hq
      rw [makeAll]
      split
      · next made h => exact Paved.makeDirectory List.mem_cons_self h
      · split
        · next t' fault h => simpa only [h] using (ih t).mono more
        · next t' h =>
            have paved : Paved (p :: above) t t' := by simpa only [h] using (ih t).mono more
            split
            · next made h => exact paved.trans (Paved.makeDirectory List.mem_cons_self h)
            · exact paved
      · exact Paved.refl _ t

theorem directoryAt_of_isDirectory {t : FileTree} {p : Path} (h : t.isDirectory p = true) :
    ∃ place, t.directoryAt p = .ok place := by
  rw [isDirectory] at h
  split at h
  · next looked =>
      rw [lookAt] at looked
      split at looked
      · next place node found =>
          cases looked
          exact ⟨place, directoryAt_of_find found⟩
      · cases looked
      · cases looked
  · cases h

theorem makeAll_eq_ok {t made : FileTree} {p : Path} {above : List Path}
    (h : t.makeAll (p :: above) = (made, .ok ())) : ∃ place, made.directoryAt p = .ok place := by
  rw [makeAll] at h
  split at h
  · next h' =>
      cases h
      obtain ⟨_, _, place, leads, _⟩ := makeDirectory_eq_ok h'
      exact ⟨place, leads⟩
  · split at h
    · cases h
    · split at h
      · next h' =>
          cases h
          obtain ⟨_, _, place, leads, _⟩ := makeDirectory_eq_ok h'
          exact ⟨place, leads⟩
      · split at h
        · next there =>
            cases h
            exact directoryAt_of_isDirectory there
        · cases h
  · split at h
    · next there =>
        cases h
        exact directoryAt_of_isDirectory there
    · cases h

theorem makeDirectories_paved (t : FileTree) (p : Path) :
    Paved p.ancestors t (t.makeDirectories p).1 :=
  makeAll_paved t p.ancestors

theorem ancestors_eq (p : Path) : p = Path.empty ∨ ∃ above, p.ancestors = p :: above := by
  rw [Path.ancestors]
  split
  · next nothing => exact Or.inl nothing
  · exact Or.inr ⟨_, rfl⟩

theorem makeDirectories_eq_ok {t made : FileTree} {p : Path}
    (h : t.makeDirectories p = (made, .ok ())) : ∃ place, made.directoryAt p = .ok place := by
  rw [makeDirectories] at h
  cases ancestors_eq p with
  | inl nothing =>
      refine ⟨start made.current p, directoryAt_eq_ok.2 ?_⟩
      rw [nothing]
      exact walk_here _ _ _
  | inr more =>
      obtain ⟨above, paths⟩ := more
      rw [paths] at h
      exact makeAll_eq_ok h

/-- Only a path that leads to nothing has directories to be made. -/
theorem makeDirectories_eq_self {t : FileTree} {p : Path} (h : t.directoryAt p ≠ .error .notFound) :
    (t.makeDirectories p).1 = t := by
  rw [makeDirectories]
  cases ancestors_eq p with
  | inl nothing => rw [nothing]; rfl
  | inr more =>
      obtain ⟨above, paths⟩ := more
      have some : p ≠ Path.empty := by
        intro nothing
        rw [nothing] at paths
        cases paths
      rw [paths, makeAll]
      split
      · next made => exact absurd (makeDirectory_eq_ok made).2.1 h
      · next missing => exact absurd (makeDirectory_eq_notFound some missing) h
      · rfl

end FileTree

end ScriptImports
