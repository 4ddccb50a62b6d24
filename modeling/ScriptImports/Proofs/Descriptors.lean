import ScriptImports.Proofs.JsonValues
import ScriptImports.Proofs.Trace

/-!
Which texts of package descriptors name an entry file. A text that names none, or that cannot be
read, makes its candidate fail and no other: the search comes to what it would come to without that
candidate.
-/
namespace ScriptImports

namespace Descriptor

/-- The text names the entry file, as the one member `main` of an object or as the one item of an
array. -/
inductive Names (text : List Char) (main : String) : Prop
  | member {before after : List (Option String × Json)} :
    Json.Spells text (.object (before ++ (some "main", .string (some main)) :: after)) →
    (∀ m ∈ before ++ after, m.1.isSome = true ∧ m.1 ≠ some "main") → main ≠ "" → Names text main
  | item : Json.Spells text (.array [.string (some main)]) → main ≠ "" → Names text main

theorem filter_eq_singleton_iff {α : Type} {p : α → Bool} {l : List α} {a : α} :
    l.filter p = [a] ↔
      ∃ before after, l = before ++ a :: after ∧ p a = true ∧ ∀ b ∈ before ++ after, p b = false := by
  simp only [List.filter_eq_cons_iff, List.filter_eq_nil_iff, List.mem_append, or_imp, forall_and,
    Bool.not_eq_true]
  constructor
  · rintro ⟨before, after, rfl, earlier, here, later⟩
    exact ⟨before, after, rfl, here, earlier, later⟩
  · rintro ⟨before, after, rfl, here, earlier, later⟩
    exact ⟨before, after, rfl, earlier, here, later⟩

theorem mainValue?_object {members : List (Option String × Json)} {main : String} :
    mainValue? (.object members) = some (some (.string (some main))) ↔
      ∃ before after, members = before ++ (some "main", .string (some main)) :: after ∧
        ∀ m ∈ before ++ after, m.1.isSome = true ∧ m.1 ≠ some "main" := by
  rw [mainValue?]
  constructor
  · intro h
    split at h
    · next keys =>
        rw [List.all_eq_true] at keys
        split at h
        · cases h
        · next m only =>
            obtain ⟨before, after, rfl, named, others⟩ := filter_eq_singleton_iff.1 only
            obtain ⟨key, value⟩ := m
            cases of_decide_eq_true named
            split at h
            · cases h
              refine ⟨before, after, rfl, fun m hm => ⟨keys m ?_, of_decide_eq_false (others m hm)⟩⟩
              simp only [List.mem_append, List.mem_cons] at hm ⊢
              exact hm.imp_right Or.inr
            · cases h
        · cases h
    · cases h
  · rintro ⟨before, after, rfl, others⟩
    have keys : (before ++ (some "main", Json.string (some main)) :: after).all
        (fun m => m.1.isSome) = true := by
      rw [List.all_append, List.all_cons, Option.isSome_some, Bool.true_and, ← List.all_append,
        List.all_eq_true]
      exact fun m hm => (others m hm).1
    have only : (before ++ (some "main", Json.string (some main)) :: after).filter
        (fun m => m.1 = some "main") = [(some "main", .string (some main))] :=
      filter_eq_singleton_iff.2
        ⟨before, after, rfl, decide_eq_true rfl, fun m hm => decide_eq_false (others m hm).2⟩
    rw [if_pos keys, only]
    rfl

theorem mainValue?_array {items : List Json} {main : String} :
    mainValue? (.array items) = some (some (.string (some main))) ↔
      items = [.string (some main)] := by
  constructor
  · intro h
    match items with
    | [] => cases h
    | [v] =>
        rw [mainValue?] at h
        split at h
        · cases h
          rfl
        · cases h
    | _ :: _ :: _ => cases h
  · rintro rfl
    rfl

theorem main?_eq_ok_iff {p : Path} {text main : String} :
    main? p text = .ok main ↔ Names text.toList main := by
  have value : main? p text = .ok main ↔ ∃ v, Json.Spells text.toList v ∧
      mainValue? v = some (some (.string (some main))) ∧ main ≠ "" := by
    simp only [← Json.ofText?_eq_some_iff]
    rw [main?]
    cases Json.ofText? text with
    | none => simp
    | some v =>
        simp only [Option.bind_some, Option.some.injEq, exists_eq_left']
        split
        · next nothing => simp [nothing]
        · next name named =>
            rw [named, Option.some.injEq, Option.some.injEq, Json.string.injEq, Option.some.injEq]
            split
            · next empty => simp [empty]
            · next nonempty =>
                rw [Except.ok.injEq, iff_self_and]
                rintro rfl
                exact nonempty
        · next other value =>
            rw [value]
            refine iff_of_false ?_ fun named => other main (Option.some.inj named.1)
            rintro ⟨⟩
  rw [value]
  constructor
  · rintro ⟨v, spelled, named, nonempty⟩
    cases v with
    | array items =>
        rw [mainValue?_array.1 named] at spelled
        exact .item spelled nonempty
    | object members =>
        obtain ⟨before, after, rfl, others⟩ := mainValue?_object.1 named
        exact .member spelled others nonempty
    | null | boolean | number | string => cases named
  · rintro (⟨spelled, others, nonempty⟩ | ⟨spelled, nonempty⟩)
    · exact ⟨_, spelled, mainValue?_object.2 ⟨_, _, rfl, others⟩, nonempty⟩
    · exact ⟨_, spelled, mainValue?_array.2 rfl, nonempty⟩

theorem read_eq_ok_iff {t : FileTree} {p : Path} {main : String} :
    read t p = .ok main ↔ ∃ text, t.readText p = .ok text ∧ Names text.toList main := by
  rw [read]
  cases t.readText p with
  | ok text => simp [main?_eq_ok_iff]
  | error fault => simp

/-- What cannot be read, and what names no entry file, is a fault. -/
theorem read_eq_error_iff {t : FileTree} {p : Path} :
    (∃ fault, read t p = .error fault) ↔
      ∀ text main, t.readText p = .ok text → ¬ Names text.toList main := by
  constructor
  · rintro ⟨fault, fails⟩ text main readable names
    rw [read_eq_ok_iff.2 ⟨text, readable, names⟩] at fails
    cases fails
  · intro nothing
    cases result : read t p with
    | error fault => exact ⟨fault, rfl⟩
    | ok main =>
        obtain ⟨text, readable, names⟩ := read_eq_ok_iff.1 result
        exact absurd names (nothing text main readable)

/-- A candidate that is no code file, and has a descriptor, comes to what the descriptor names, or
fails with its fault. -/
theorem verify_described {s : Settings} {t : FileTree} {session : ProbeSession} {step : SearchStep}
    (remembers : session.cache.Remembers t) (asks : Search.Asks s step)
    (other : (step.isCode s && t.isFile step.path) = false)
    (described : t.isFile step.descriptor = true) :
    (verify s.nativeExtensions session t step.path step.label).2 =
      (read t step.descriptor).map fun main => some (step.path.child main).normalize := by
  obtain ⟨first, answer⟩ := Search.direct_plain remembers asks
  have second := (ProbeSession.check_plain first.remembers asks.2
    (step.label ++ "/" ++ fileName)).2
  rw [other] at answer
  rw [described] at second
  unfold SearchStep.isCode at answer second
  unfold SearchStep.descriptor at second ⊢
  rw [verify_eq]
  dsimp only
  rw [answer, second]
  rfl

end Descriptor

namespace Search

variable {s : Settings} {t : FileTree}

/-- A candidate whose descriptor cannot be used is passed over. -/
theorem found_skip {before after : List SearchStep} {step : SearchStep} {fault : DescriptorFault}
    (other : (step.isCode s && t.isFile step.path) = false)
    (fails : Descriptor.read t step.descriptor = .error fault) :
    found s t (before ++ step :: after) = found s t (before ++ after) := by
  have nothing : step.found s t = none := by
    rw [SearchStep.found, other, SearchStep.entry, fails]
    simp [Except.toOption]
  rw [found_append, found_append, found, found, List.findSome?_cons, nothing]
  rfl

end Search

/-- A descriptor gives the entry file that its text names, and is a fault if it names none. A candidate
with a fault fails in every session, and the search comes to what the other candidates come to. -/
theorem Descriptor.read_names_or_fails (s : Settings) (t : FileTree) :
    (∀ p text main, main? p text = .ok main ↔ Names text.toList main) ∧
    (∀ p main, read t p = .ok main ↔
      ∃ text, t.readText p = .ok text ∧ Names text.toList main) ∧
    (∀ p, (∃ fault, read t p = .error fault) ↔
      ∀ text main, t.readText p = .ok text → ¬ Names text.toList main) ∧
    ∀ name origin before step after fault,
      Search.candidates s name origin = before ++ step :: after →
      (step.isCode s && t.isFile step.path) = false → t.isFile step.descriptor = true →
      read t step.descriptor = .error fault →
      (∀ session : ProbeSession, session.cache.Remembers t →
        (verify s.nativeExtensions session t step.path step.label).2 = .error fault) ∧
      (search s .empty t name origin).2 =
        (Search.found s t (before ++ after)).map Location.path := by
  refine ⟨fun _ _ _ => main?_eq_ok_iff, fun _ _ => read_eq_ok_iff, fun _ => read_eq_error_iff, ?_⟩
  intro name origin before step after fault candidates other described fails
  constructor
  · intro session remembers
    have asks : Search.Asks s step :=
      Search.asks_candidates s name origin step (by simp [candidates])
    rw [verify_described remembers asks other described, fails]
    rfl
  · have url : ¬ Name.isUrl name = true := by
      intro url
      rw [Search.candidates_url url] at candidates
      exact List.append_ne_nil_of_right_ne_nil before (List.cons_ne_nil step after) candidates.symm
    rw [search_location, if_neg url, candidates, Search.found_skip other fails]

/-- The first root has the broken descriptor. -/
theorem Descriptor.read_names_or_fails_brokenPackage :
    let step : SearchStep := ⟨"NODE_PATH", Path.ofString "/one/left-pad"⟩
    ∃ before after fault,
      Search.candidates Resolution.twoRoots "left-pad" none = before ++ step :: after ∧
      (verify Resolution.twoRoots.nativeExtensions .empty brokenPackage step.path step.label).2 =
        .error fault ∧
      (Search.found Resolution.twoRoots brokenPackage (before ++ after)).map Location.path =
        some (.path (Path.ofString "/two/left-pad/x.js")) := by
  intro step
  have among : step ∈ Search.candidates Resolution.twoRoots "left-pad" none := by decide +kernel
  obtain ⟨before, after, candidates⟩ := List.append_of_mem among
  have broken : (read brokenPackage step.descriptor).isOk = false := by decide +kernel
  cases fails : read brokenPackage step.descriptor with
  | ok main =>
      rw [fails] at broken
      cases broken
  | error fault =>
      obtain ⟨verified, found⟩ :=
        (read_names_or_fails Resolution.twoRoots brokenPackage).2.2.2 "left-pad" none
          before step after fault candidates (by decide +kernel) (by decide +kernel) fails
      refine ⟨before, after, fault, candidates, verified .empty ProbeCache.remembers_empty, ?_⟩
      rw [← found]
      decide +kernel

/-- A descriptor whose text is an array. -/
def listedPackage : FileTree :=
  FileTree.empty.write (Path.ofString "/one/left-pad/package.json")
    (.file "[\"x.js\"]".toUTF8)

/-- An array of a name names an entry file as an object does. -/
theorem Descriptor.read_listedPackage :
    (∀ p, main? p "[\"x.js\"]" = .ok "x.js") ∧
    (∀ members, ¬ Json.Spells "[\"x.js\"]".toList (.object members)) ∧
    (search Resolution.twoRoots .empty listedPackage "left-pad" none).2 =
      some (.path (Path.ofString "/one/left-pad/x.js")) := by
  have units : Json.SpellsUnits "x.js".toList ("x.js".toList.map .inl) :=
    .plain (by decide) (by decide) (by decide) (.plain (by decide) (by decide) (by decide)
      (.plain (by decide) (by decide) (by decide) (.plain (by decide) (by decide) (by decide) .nil)))
  have item : Json.SpellsString "\"x.js\"".toList (some "x.js") := ⟨_, _, units, rfl, rfl⟩
  have array : Json.Spells "[\"x.js\"]".toList (.array [.string (some "x.js")]) :=
    ⟨1, _, [], ⟨[], _, nofun, .array (.inr (.last ⟨_, [], ⟨[], _, nofun, .string item, rfl⟩,
      nofun, rfl⟩)), rfl⟩, nofun, rfl⟩
  refine ⟨fun p => main?_eq_ok_iff.2 (.item array (by decide)), fun members object => ?_,
    by decide +kernel⟩
  rw [← Json.ofText?_eq_some_iff] at array object
  rw [object] at array
  cases array

end ScriptImports
