import Mathlib.Data.List.TakeWhile
import ScriptImports.Proofs.Grammar

/-!
Programs that are written piece by piece: text without bangs, and import statements between. Scanning
gives the statements back, each with the line that it was written in.
-/
namespace ScriptImports

namespace Text

theorem trim_ne_nil {cs : List Char} (named : ∃ c ∈ cs, isBlank c = false) : trim cs ≠ [] := by
  obtain ⟨c, hc, shown⟩ := named
  intro empty
  have blank : ∀ d ∈ cs.dropWhile isBlank, isBlank d = true := by
    simpa [trim, dropBlankEnd, List.dropWhile_eq_nil_iff] using empty
  rw [← @List.takeWhile_append_dropWhile _ isBlank cs, List.mem_append] at hc
  cases hc with
  | inl front => simp [List.all_eq_true.1 List.all_takeWhile c front] at shown
  | inr rest => simp [blank c rest] at shown

/-- A piece of a line put before the first of some lines. -/
def prepend (piece : List Char) : List (List Char) → List (List Char)
  | [] => [piece]
  | line :: more => (piece ++ line) :: more

theorem prepend_prepend (piece piece' : List Char) (ls : List (List Char)) :
    prepend piece (prepend piece' ls) = prepend (piece ++ piece') ls := by
  cases ls <;> simp [prepend]

theorem length_prepend (piece : List Char) {ls : List (List Char)} (some_line : ls ≠ []) :
    (prepend piece ls).length = ls.length := by
  cases ls with
  | nil => exact absurd rfl some_line
  | cons => rfl

/-- Only the line feed, and the carriage return before it, are left out of the lines. -/
theorem lines_cons {c : Char} {cs : List Char} (other : c ≠ '\n')
    (kept : c = '\r' → cs.head? ≠ some '\n') : lines (c :: cs) = prepend [c] (lines cs) := by
  have apart : ∀ rest, c = '\r' → cs = '\n' :: rest → False :=
    fun rest cr lf => kept cr (by simp [lf])
  rw [lines.eq_4 c cs other apart]
  cases lines cs <;> rfl

theorem lines_append {piece cs : List Char} {last : Char} (oneLine : '\n' ∉ piece)
    (ends : piece.getLast? = some last) (kept : last = '\r' → cs.head? ≠ some '\n') :
    lines (piece ++ cs) = prepend piece (lines cs) := by
  induction piece with
  | nil => cases ends
  | cons c piece ih =>
      simp only [List.mem_cons, not_or] at oneLine
      cases piece with
      | nil =>
          cases ends
          exact lines_cons (Ne.symm oneLine.1) kept
      | cons d piece =>
          have next : ((d :: piece) ++ cs).head? ≠ some '\n' := by
            simpa [eq_comm] using (not_or.1 (mt List.mem_cons.2 oneLine.2)).1
          rw [List.getLast?_cons_cons] at ends
          rw [List.cons_append, lines_cons (Ne.symm oneLine.1) (fun _ => next), ih oneLine.2 ends,
            prepend_prepend, List.singleton_append]

end Text

namespace Statement

/-! The names of a line, from its front. -/

theorem occurrencesFrom_text (start : Nat) (w : Spelling) (rest : List Char) :
    occurrencesFrom start (w.text ++ rest) =
      ⟨start, w.text.length, w.name⟩ :: occurrencesFrom (start + w.text.length) rest := by
  have covers : Covers start (w.text ++ rest)
      (⟨start, w.text.length, w.name⟩ :: occurrencesFrom (start + w.text.length) rest) :=
    (covers_text w).2 ⟨_, rfl, (covers_iff _ _ _).2 rfl⟩
  exact ((covers_iff _ _ _).1 covers).symm

theorem occurrencesFrom_tail (start : Nat) {c : Char} {cs : List Char}
    (unread : read? (c :: cs) = none) :
    occurrencesFrom start (c :: cs) = occurrencesFrom (start + 1) cs :=
  ((covers_iff _ _ _).1 ((covers_tail unread).2 ((covers_iff _ _ _).2 rfl))).symm

/-- What is named does not depend on where a text starts. -/
theorem map_name_occurrencesFrom (start start' : Nat) (cs : List Char) :
    (occurrencesFrom start cs).map Occurrence.name =
      (occurrencesFrom start' cs).map Occurrence.name := by
  fun_induction occurrencesFrom start cs generalizing start' with
  | case1 start cs name rest read ih =>
      obtain ⟨w, rfl, rfl⟩ := read?_eq_some_iff.1 read
      rw [occurrencesFrom_text, List.map_cons, List.map_cons, ih]
  | case2 start unread => rw [(covers_iff _ _ _).1 (covers_nil.2 rfl)]
  | case3 start c cs unread ih => rw [occurrencesFrom_tail start' unread, ih (start' + 1)]

theorem names_eq (start : Nat) (line : List Char) :
    names line = (((occurrencesFrom start line).map Occurrence.name).map Text.trim).filter
      (· != []) := by
  rw [map_name_occurrencesFrom start 0, List.map_map]
  rfl

/-- Text in which no statement starts. -/
structure Filler where
  text : List Char
  quiet : ∀ c ∈ text, c ∉ ['!', '！']

/-- A statement that keeps to one line and names something. -/
structure Inline extends Spelling where
  named : ∃ c ∈ name, Text.isBlank c = false
  oneLine : ∀ c ∈ beforeName ++ afterName ++ beforeVerb, c ≠ '\n'

theorem names_text (w : Inline) (line : List Char) :
    names (w.text ++ line) = Text.trim w.name :: names line := by
  rw [names_eq 0, occurrencesFrom_text, names_eq (0 + w.text.length) line]
  simp [Text.trim_ne_nil w.named]

theorem names_cons {c : Char} (quiet : c ∉ ['!', '！']) (line : List Char) :
    names (c :: line) = names line := by
  have unread : read? (c :: line) = none := by
    rw [read?, if_neg (mt isBang_iff.1 quiet)]
  rw [names_eq 0, occurrencesFrom_tail 0 unread, names_eq (0 + 1) line]

theorem names_nil : names [] = [] := by
  rw [names, occurrences, ← (covers_iff 0 [] []).1 (covers_nil.2 rfl)]
  rfl

/-! The references of the lines that are left, `number` being that of the first. -/

def scanLines (file : Option Path) (number : Nat) (ls : List (List Char)) : List Reference :=
  (ls.zipIdx number).flatMap fun (line, number) =>
    (names line).map fun name => ⟨String.ofList name, file, .ofNat number⟩

theorem scan_eq_scanLines (code : String) (file : Option Path) :
    scan code file = scanLines file 1 (Text.lines code.toList) :=
  (scan_covers code file).2

theorem scanLines_cons (file : Option Path) (number : Nat) (line : List Char)
    (ls : List (List Char)) : scanLines file number (line :: ls) =
      ((names line).map fun name => ⟨String.ofList name, file, .ofNat number⟩) ++
        scanLines file (number + 1) ls := by
  simp [scanLines]

theorem mem_scanLines {file : Option Path} {number : Nat} {ls : List (List Char)} {r : Reference} :
    r ∈ scanLines file number ls ↔ ∃ i line, ls[i]? = some line ∧
      ∃ name ∈ names line, r = ⟨String.ofList name, file, .ofNat (i + number)⟩ := by
  rw [scanLines, List.mem_flatMap]
  constructor
  · intro there
    obtain ⟨⟨line, k⟩, at_k, named⟩ := there
    rw [List.mk_mem_zipIdx_iff_le_and_getElem?_sub] at at_k
    obtain ⟨name, hname, rfl⟩ := List.mem_map.1 named
    refine ⟨k - number, line, at_k.2, name, hname, ?_⟩
    rw [Nat.sub_add_cancel at_k.1]
  · intro there
    obtain ⟨i, line, at_i, name, hname, rfl⟩ := there
    refine ⟨(line, i + number), ?_, List.mem_map_of_mem hname⟩
    rw [List.mk_mem_zipIdx_iff_le_and_getElem?_sub, Nat.add_sub_cancel]
    exact ⟨Nat.le_add_left number i, at_i⟩

theorem mem_scan {code : String} {file : Option Path} {r : Reference} :
    r ∈ scan code file ↔ ∃ i line, (Text.lines code.toList)[i]? = some line ∧
      ∃ name ∈ names line, r = ⟨String.ofList name, file, .ofNat (i + 1)⟩ := by
  rw [scan_eq_scanLines, mem_scanLines]

theorem scanLines_prepend {piece : List Char} {given : List (List Char)}
    (first : ∀ line, names (piece ++ line) = given ++ names line) (file : Option Path)
    (number : Nat) (ls : List (List Char)) : scanLines file number (Text.prepend piece ls) =
      (given.map fun name => ⟨String.ofList name, file, .ofNat number⟩) ++
        scanLines file number ls := by
  cases ls with
  | nil =>
      have alone : names piece = given := by simpa [names_nil] using first []
      simp [Text.prepend, scanLines, alone]
  | cons line ls => simp [Text.prepend, scanLines_cons, first]

theorem newline_not_mem_text (w : Inline) : '\n' ∉ w.text := by
  have bang : '\n' ≠ w.bang := fun same => by simpa [← same] using w.bang_mem
  have opening : '\n' ≠ w.opening := fun same => by simpa [← same] using w.opening_mem
  have closing : '\n' ≠ w.closing := fun same => by simpa [← same] using w.closing_mem
  have name : '\n' ∉ w.name := fun lf => by simpa using w.name_chars _ lf
  have gaps : '\n' ∉ w.beforeName ++ w.afterName ++ w.beforeVerb := fun lf => w.oneLine _ lf rfl
  simp only [List.mem_append, not_or] at gaps
  have particle : '\n' ∉ optional 'を' w.particle := by cases w.particle <;> decide
  have ending : '\n' ∉ optional 'り' w.ending := by cases w.ending <;> decide
  simp [Spelling.text, Spelling.verb, *]

theorem getLast?_text (w : Spelling) : w.text.getLast? = some '込' := by
  simp [Spelling.text, Spelling.verb, List.getLast?_cons, List.getLast?_append]

theorem scanLines_text (file : Option Path) (number : Nat) (w : Inline) (cs : List Char) :
    scanLines file number (Text.lines (w.text ++ cs)) =
      ⟨String.ofList (Text.trim w.name), file, .ofNat number⟩ ::
        scanLines file number (Text.lines cs) := by
  rw [Text.lines_append (newline_not_mem_text w) (getLast?_text w.toSpelling)
    (fun cr => absurd cr (by decide))]
  exact @scanLines_prepend w.text [Text.trim w.name] (names_text w) file number (Text.lines cs)

theorem scanLines_quiet {c : Char} (other : c ≠ '\n') (quiet : c ∉ ['!', '！'])
    (file : Option Path) (number : Nat) (cs : List Char) :
    scanLines file number (Text.lines (c :: cs)) = scanLines file number (Text.lines cs) := by
  by_cases ending : c = '\r' ∧ cs.head? = some '\n'
  · obtain ⟨rfl, lf⟩ := ending
    obtain ⟨rest, rfl⟩ := List.head?_eq_some_iff.1 lf
    rw [Text.lines, Text.lines]
  · rw [Text.lines_cons other (fun cr lf => ending ⟨cr, lf⟩)]
    exact @scanLines_prepend [c] [] (names_cons quiet) file number (Text.lines cs)

theorem scanLines_filler {filler : List Char} (quiet : ∀ c ∈ filler, c ∉ ['!', '！'])
    (file : Option Path) (number : Nat) (cs : List Char) :
    scanLines file number (Text.lines (filler ++ cs)) =
      scanLines file (number + filler.count '\n') (Text.lines cs) := by
  induction filler generalizing number with
  | nil => rfl
  | cons c filler ih =>
      obtain ⟨here, later⟩ := List.forall_mem_cons.1 quiet
      by_cases lf : c = '\n'
      · subst lf
        rw [List.cons_append, Text.lines, scanLines_cons, names_nil, ih later, List.count_cons_self,
          Nat.add_assoc, Nat.add_comm 1]
        rfl
      · rw [List.cons_append, scanLines_quiet lf here, ih later, List.count_cons_of_ne lf]

/-- Statements in turn, each with the text up to the next one. -/
def body (pieces : List (Inline × Filler)) : List Char :=
  pieces.flatMap fun p => p.1.text ++ p.2.text

theorem scanLines_body (file : Option Path) (number : Nat) (pieces : List (Inline × Filler)) :
    scanLines file number (Text.lines (body pieces)) = pieces.mapIdx fun i p =>
      ⟨String.ofList (Text.trim p.1.name), file,
        .ofNat (number + (body (pieces.take i)).count '\n')⟩ := by
  induction pieces generalizing number with
  | nil => rfl
  | cons p pieces ih =>
      have whole : ∀ rest, body (p :: rest) = p.1.text ++ (p.2.text ++ body rest) := by simp [body]
      have here : p.1.text.count '\n' = 0 := List.count_eq_zero.2 (newline_not_mem_text p.1)
      rw [whole, scanLines_text, scanLines_filler p.2.quiet, ih, List.mapIdx_cons]
      simp [here, List.count_append, body, Nat.add_assoc]

/-- A program text of fillers and statements in turn. -/
def written (first : Filler) (pieces : List (Inline × Filler)) : List Char :=
  first.text ++ body pieces

/-- Scanning gives back the statements that were written, each with the trimmed name and the line that
it was written in. -/
theorem scan_written (first : Filler) (pieces : List (Inline × Filler)) (file : Option Path) :
    scan (String.ofList (written first pieces)) file = pieces.mapIdx fun i p =>
      ⟨String.ofList (Text.trim p.1.name), file,
        .ofNat (1 + (written first (pieces.take i)).count '\n')⟩ := by
  rw [scan_eq_scanLines, String.toList_ofList, written, scanLines_filler first.quiet, scanLines_body]
  simp only [written, List.count_append, Nat.add_assoc]

/-- Statements can share a line, and a name can hold what looks like the start of another. -/
example : scan "『前』\r\n!「 あ!「 」を 取り込む ！ \"い\"取込\n" none =
    [⟨"あ!「", none, 2⟩, ⟨"い", none, 2⟩] := by decide +kernel

end Statement

end ScriptImports
