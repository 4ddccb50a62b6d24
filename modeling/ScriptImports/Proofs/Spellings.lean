import ScriptImports.FileTree.Change
import ScriptImports.Proofs.PlainSearch

/-!
The memory of a session where one path is asked for in several spellings. Answers are remembered by
the key of a path, and paths with one key can differ in what they ask of the tree: a slash at the end
asks for a directory. So a question is answered by what the tree says of the spelling that was asked
for first, and all answers are those of the tree only where it does not tell the spellings apart.
-/
namespace ScriptImports

theorem Path.same_iff {p q : Path} : p.same q = true ↔ p.key = q.key := beq_iff_eq

namespace ProbeCache

/-- The answers to questions that are asked one after the other. -/
def isFileAll (cache : ProbeCache) (t : FileTree) : List Path → List Bool
  | [] => []
  | p :: ps => (cache.isFile t p).2 :: (cache.isFile t p).1.isFileAll t ps

/-- The spelling in which a path stands first in a list. -/
def firstSpelling (ps : List Path) (p : Path) : Path := (ps.find? p.same).getD p

theorem firstSpelling_cons (q : Path) (ps : List Path) (p : Path) :
    firstSpelling (q :: ps) p = if p.key = q.key then q else firstSpelling ps p := by
  rw [firstSpelling, List.find?_cons]
  cases same : p.same q with
  | true => rw [if_pos (Path.same_iff.1 same), Option.getD_some]
  | false =>
      rw [if_neg]
      · rfl
      · intro key
        rw [Path.same_iff.2 key] at same
        cases same

/-- What is known when the questions start comes first, then the first spelling among them. -/
theorem isFileAll_eq_map (cache : ProbeCache) (t : FileTree) (ps : List Path) :
    cache.isFileAll t ps =
      ps.map fun p => (cache.answers.lookup p.key).getD (t.isFile (firstSpelling ps p)) := by
  induction ps generalizing cache with
  | nil => rfl
  | cons q ps ih =>
      rw [isFileAll, ih, List.map_cons, isFile_snd, firstSpelling_cons, if_pos rfl]
      congr 1
      apply List.map_congr_left
      intro p _
      rw [lookup_isFile, firstSpelling_cons]
      by_cases here : p.key = q.key
      · rw [if_pos here, if_pos here, Option.getD_some, isFile_snd, here]
      · rw [if_neg here, if_neg here]

theorem firstSpelling_mem {ps : List Path} {p : Path} (hp : p ∈ ps) :
    firstSpelling ps p ∈ ps ∧ (firstSpelling ps p).key = p.key := by
  induction ps with
  | nil => cases hp
  | cons q ps ih =>
      rw [firstSpelling_cons]
      split
      · next here => exact ⟨List.mem_cons_self, here.symm⟩
      · next other =>
          have later : p ∈ ps := by
            cases List.mem_cons.1 hp with
            | inl same => exact absurd (congrArg Path.key same) other
            | inr later => exact later
          exact ⟨List.mem_cons_of_mem q (ih later).1, (ih later).2⟩

theorem firstSpelling_congr {ps : List Path} {p q : Path} (hp : p ∈ ps) (key : p.key = q.key) :
    firstSpelling ps p = firstSpelling ps q := by
  induction ps with
  | nil => cases hp
  | cons r ps ih =>
      rw [firstSpelling_cons, firstSpelling_cons, ← key]
      split
      · rfl
      · next other =>
          cases List.mem_cons.1 hp with
          | inl same => exact absurd (congrArg Path.key same) other
          | inr later => exact ih later

/-- Over a tree that stays as it is every question is answered by what the tree says of the first
spelling of its path among the questions. All answers are the tree's own just if it says the same of
all spellings of a path that are asked for, as it is where paths are spelled by their segments. -/
theorem isFileAll_first_spelling (t : FileTree) (ps : List Path) :
    empty.isFileAll t ps = ps.map (fun p => t.isFile (firstSpelling ps p)) ∧
    (empty.isFileAll t ps = ps.map t.isFile ↔
      ∀ p ∈ ps, ∀ q ∈ ps, p.key = q.key → t.isFile p = t.isFile q) ∧
    ((∀ p ∈ ps, p.IsPlain) → empty.isFileAll t ps = ps.map t.isFile) := by
  have answers : empty.isFileAll t ps = ps.map fun p => t.isFile (firstSpelling ps p) :=
    isFileAll_eq_map empty t ps
  have own : (∀ p ∈ ps, ∀ q ∈ ps, p.key = q.key → t.isFile p = t.isFile q) →
      empty.isFileAll t ps = ps.map t.isFile := by
    intro alike
    rw [answers]
    apply List.map_congr_left
    intro p hp
    obtain ⟨member, key⟩ := firstSpelling_mem hp
    exact alike _ member p hp key
  refine ⟨answers, ⟨fun same p hp q hq key => ?_, own⟩, fun plain => own ?_⟩
  · rw [answers, List.map_inj_left] at same
    rw [← same p hp, ← same q hq, firstSpelling_congr hp key]
  · intro p hp q hq key
    rw [(plain p hp).eq_of_key (plain q hq) key]

/-- A file, and nothing else. -/
def oneFile : FileTree := FileTree.empty.write (Path.ofString "/a.js") (.file "1".toUTF8)

theorem isFileAll_first_spelling_plain :
    let ps := [Path.ofString "/a.js", Path.ofString "/b.js", Path.ofString "/a.js"]
    (∀ p ∈ ps, p.IsPlain) ∧ empty.isFileAll oneFile ps = ps.map oneFile.isFile ∧
    ps.map oneFile.isFile = [true, false, true] := by
  intro ps
  have plain : ∀ p ∈ ps, p.IsPlain := by
    unfold Path.IsPlain
    decide
  refine ⟨plain, (isFileAll_first_spelling oneFile ps).2.2 plain, ?_⟩
  decide +kernel

/-- A slash at the end asks for a directory, which the file is not. In either order the second
question is answered as the first one. -/
theorem isFileAll_mixed_spellings :
    oneFile.isFile (Path.ofString "/a.js") = true ∧
    oneFile.isFile (Path.ofString "/a.js/") = false ∧
    empty.isFileAll oneFile [Path.ofString "/a.js", Path.ofString "/a.js/"] = [true, true] ∧
    empty.isFileAll oneFile [Path.ofString "/a.js/", Path.ofString "/a.js"] = [false, false] := by
  refine ⟨?_, ?_, ?_, ?_⟩
  · decide +kernel
  · decide +kernel
  · decide +kernel
  · decide +kernel

end ProbeCache

end ScriptImports
