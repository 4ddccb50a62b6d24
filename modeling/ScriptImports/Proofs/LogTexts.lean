import ScriptImports.Failure
import ScriptImports.Proofs.Lines
import ScriptImports.Proofs.Readers

/-!
Logs read back from their texts. A row ends with its answer, and its label with the first closing
bracket, so that a path between them may look like anything but an end of line; a log has one line for
each row. The message of a failed search is a heading above the text of its log.
-/
namespace ScriptImports

/-! Affixes. -/

theorem dropPrefix?_eq_some {cs front rest : List Char} :
    cs.dropPrefix? front = some rest ↔ cs = front ++ rest := by
  simp [List.dropPrefix?_eq_some_iff]

theorem dropSuffix?_eq_some {cs rest ending : List Char} :
    cs.dropSuffix? ending = some rest ↔ cs = rest ++ ending := by
  simp [List.dropSuffix?_eq_some_iff]

namespace ProbeRow

def answer (found : Bool) : List Char := if found then ", true".toList else ", false".toList

theorem text_toList (row : ProbeRow) : row.text.toList =
    "- (".toList ++ (row.label.toList ++ (") ".toList ++ (row.path.toList ++ answer row.found))) := by
  cases found : row.found <;> simp [text, found, answer]

/-- Reads what a row is written as: the label is all up to the first closing bracket, and the path all
between that and the answer. -/
def ofChars? (cs : List Char) : Option ProbeRow := do
  let cs ← cs.dropPrefix? "- (".toList
  let label := String.ofList (cs.takeWhile (· != ')'))
  let cs ← (cs.dropWhile (· != ')')).dropPrefix? ") ".toList
  match cs.dropSuffix? (answer true) with
  | some path => some ⟨label, String.ofList path, true⟩
  | none => (cs.dropSuffix? (answer false)).map fun path => ⟨label, String.ofList path, false⟩

theorem answer_false_ne (path path' : List Char) : path ++ answer false ≠ path' ++ answer true := by
  intro same
  have ends := congrArg (fun cs => cs.reverse.take 3) same
  simp [answer] at ends

theorem ofChars?_eq_some_iff {cs : List Char} {row : ProbeRow} :
    ofChars? cs = some row ↔ ')' ∉ row.label.toList ∧ row.text.toList = cs := by
  constructor
  · intro h
    obtain ⟨rest, opened, h⟩ := Option.bind_eq_some_iff.1 h
    obtain ⟨behind, closed, h⟩ := Option.bind_eq_some_iff.1 h
    have plain : ')' ∉ rest.takeWhile (· != ')') := fun bracket => by
      simpa using List.all_eq_true.1 List.all_takeWhile _ bracket
    rw [dropPrefix?_eq_some] at opened closed
    rw [← @List.takeWhile_append_dropWhile _ (· != ')') rest, closed] at opened
    split at h
    · next path ends =>
        cases h
        rw [text_toList, opened, dropSuffix?_eq_some.1 ends]
        simpa using plain
    · obtain ⟨path, ends, rfl⟩ := Option.map_eq_some_iff.1 h
      rw [text_toList, opened, dropSuffix?_eq_some.1 ends]
      simpa using plain
  · rintro ⟨plain, rfl⟩
    obtain ⟨label, path, found⟩ := row
    have all : ∀ c ∈ label.toList, (c != ')') = true := by
      intro c hc
      rw [bne_iff_ne]
      rintro rfl
      exact plain hc
    obtain ⟨taken, left⟩ := @Text.Reader.span_append (") ".toList ++ (path.toList ++ answer found))
      (· != ')') label.toList all (by simp)
    rw [text_toList, ofChars?, dropPrefix?_eq_some.2 rfl]
    simp only [Option.bind_eq_bind, Option.bind_some, taken, left, String.ofList_toList]
    rw [dropPrefix?_eq_some.2 rfl, Option.bind_some]
    cases found with
    | true =>
        rw [dropSuffix?_eq_some.2 rfl]
        dsimp only
        rw [String.ofList_toList]
    | false =>
        -- the answers differ in their last letter but one, so that no path makes one of the other
        have other : (path.toList ++ answer false).dropSuffix? (answer true) = none := by
          rw [Option.eq_none_iff_forall_ne_some]
          exact fun path' ends => answer_false_ne _ _ (dropSuffix?_eq_some.1 ends)
        rw [other, dropSuffix?_eq_some.2 rfl, Option.map_some, String.ofList_toList]

/-- What a row can hold without looking like another one. -/
structure IsLegible (row : ProbeRow) : Prop where
  label_open : ')' ∉ row.label.toList
  label_line : '\n' ∉ row.label.toList
  path_line : '\n' ∉ row.path.toList

theorem newline_mem_text {row : ProbeRow} :
    '\n' ∈ row.text.toList ↔ '\n' ∈ row.label.toList ∨ '\n' ∈ row.path.toList := by
  cases found : row.found <;> simp [text_toList, found, answer]

theorem isLegible_iff {row : ProbeRow} :
    row.IsLegible ↔ ')' ∉ row.label.toList ∧ '\n' ∉ row.text.toList := by
  rw [newline_mem_text, not_or]
  exact ⟨fun ⟨bracket, label, path⟩ => ⟨bracket, label, path⟩,
    fun ⟨bracket, label, path⟩ => ⟨bracket, label, path⟩⟩

instance (row : ProbeRow) : Decidable row.IsLegible := decidable_of_iff _ isLegible_iff.symm

theorem getLast?_text (row : ProbeRow) : row.text.toList.getLast? = some 'e' := by
  cases found : row.found <;>
    simp [text_toList, found, answer, List.getLast?_append, List.getLast?_cons]

end ProbeRow

namespace ProbeLog

def IsLegible (log : ProbeLog) : Prop := ∀ row ∈ log, row.IsLegible

instance (log : ProbeLog) : Decidable log.IsLegible :=
  inferInstanceAs (Decidable (∀ row ∈ log, row.IsLegible))

/-- Reads what a log is written as, one row a line. -/
def ofText? (text : String) : Option ProbeLog :=
  if text = "" then some [] else (text.toList.splitOn '\n').mapM ProbeRow.ofChars?

theorem text_toList (log : ProbeLog) :
    log.text.toList = ['\n'].intercalate (log.map fun row => row.text.toList) := by
  rw [text, String.toList_intercalate, List.map_map]
  rfl

theorem lines_text {log : ProbeLog} (legible : log.IsLegible) :
    Text.lines log.text.toList = log.map fun row => row.text.toList := by
  rw [text_toList]
  apply Text.lines_intercalate
  · rw [List.forall_mem_map]
    exact fun row hrow => (ProbeRow.isLegible_iff.1 (legible row hrow)).2
  · rw [List.forall_mem_map]
    exact fun row _ => ⟨'e', by decide, row.getLast?_text⟩

theorem map_ofChars?_eq_iff {pieces : List (List Char)} {log : ProbeLog} :
    pieces.map ProbeRow.ofChars? = log.map some ↔
      (∀ row ∈ log, ')' ∉ row.label.toList) ∧ log.map (fun row => row.text.toList) = pieces := by
  induction log generalizing pieces with
  | nil => simp [eq_comm]
  | cons row log ih =>
      cases pieces with
      | nil => simp
      | cons piece pieces =>
          simp only [List.map_cons, List.cons.injEq, ProbeRow.ofChars?_eq_some_iff, ih,
            List.forall_mem_cons]
          exact ⟨fun ⟨⟨bracket, here⟩, brackets, more⟩ => ⟨⟨bracket, brackets⟩, here, more⟩,
            fun ⟨⟨bracket, brackets⟩, here, more⟩ => ⟨⟨bracket, here⟩, brackets, more⟩⟩

/-- A text is read as a log exactly if it is the text of that log, and no row looks like another. -/
theorem ofText?_eq_some_iff {text : String} {log : ProbeLog} :
    ofText? text = some log ↔ log.IsLegible ∧ log.text = text := by
  rw [ofText?]
  split
  · next nothing =>
      constructor
      · rintro ⟨⟩
        exact ⟨nofun, nothing.symm⟩
      · rintro ⟨legible, same⟩
        have none := lines_text legible
        rw [same, nothing, String.toList_empty, Text.lines, eq_comm, List.map_eq_nil_iff] at none
        rw [none]
  · next some =>
      rw [Text.mapM_eq_some_iff, map_ofChars?_eq_iff, ← Text.divides_iff]
      constructor
      · rintro ⟨brackets, joined, oneLine, _⟩
        rw [List.forall_mem_map] at oneLine
        refine ⟨fun row hrow => ProbeRow.isLegible_iff.2 ⟨brackets row hrow, oneLine row hrow⟩, ?_⟩
        rw [← String.toList_inj, text_toList, joined]
      · rintro ⟨legible, rfl⟩
        refine ⟨fun row hrow => (legible row hrow).label_open, (text_toList log).symm, ?_, ?_⟩
        · rw [List.forall_mem_map]
          exact fun row hrow => (ProbeRow.isLegible_iff.1 (legible row hrow)).2
        · rintro none
          rw [List.map_eq_nil_iff] at none
          exact some (by rw [none]; rfl)

end ProbeLog

namespace ImportFailure

/-- What a message starts with. -/
def place (file : Option Path) (line : UInt32) : String :=
  match file with
  | some file => file.toString ++ ":" ++ toString line
  | none => "line " ++ toString line

/-- The first line of the message of a failed search. -/
def heading (name : String) (file : Option Path) (line : UInt32) : String :=
  place file line ++ ": native module '" ++ name ++
    "' was not found; searched the following locations:"

theorem newline_not_mem_place {file : Option Path} (line : UInt32)
    (placed : ∀ p ∈ file, '\n' ∉ p.toString.toList) : '\n' ∉ (place file line).toList := by
  have number : '\n' ∉ (toString line).toList := by
    intro lf
    have inside : '\n' ∈ Nat.toDigits 10 line.toNat := by simpa [toString] using lf
    have digit := Nat.isDigit_of_mem_toDigits (by decide) (by decide) inside
    exact absurd digit (by decide)
  cases file with
  | none => simp [place, number]
  | some p => simp [place, number, placed p rfl]

theorem newline_not_mem_heading {name : String} {file : Option Path} (line : UInt32)
    (named : '\n' ∉ name.toList) (placed : ∀ p ∈ file, '\n' ∉ p.toString.toList) :
    '\n' ∉ (heading name file line).toList := by
  simp [heading, named, newline_not_mem_place line placed]

theorem getLast?_heading (name : String) (file : Option Path) (line : UInt32) :
    (heading name file line).toList.getLast? = some ':' := by
  simp [heading, List.getLast?_append, List.getLast?_cons]

theorem message_eq (f : ImportFailure) :
    f.message = place f.file f.line ++ ": " ++ f.cause.message := by
  obtain ⟨cause, file, line⟩ := f
  cases file <;> rfl

theorem message_unresolved (name : String) (log : ProbeLog) (file : Option Path) (line : UInt32) :
    message ⟨.unresolved name log, file, line⟩ = heading name file line ++ "\n" ++ log.text := by
  have cause : FailureCause.message (.unresolved name log) =
      "native module '" ++ name ++ "' was not found; searched the following locations:\n" ++
        log.text := rfl
  have opening : ": native module '" = ": " ++ "native module '" := by decide +kernel
  have ending : "' was not found; searched the following locations:\n" =
      "' was not found; searched the following locations:" ++ "\n" := by decide +kernel
  rw [message_eq, cause, ending, heading, opening]
  simp only [String.append_assoc]

end ImportFailure

/-- The text of a log can be read back: it has a line for each row, in their order, and each line tells
the row, so that no other log has this text. The message of a failed search is a line with its name and
place, and below that the text of the log. -/
theorem ProbeLog.text_read_back {log : ProbeLog} (legible : log.IsLegible) :
    ofText? log.text = some log ∧
    Text.lines log.text.toList = log.map (fun row => row.text.toList) ∧
    (Text.lines log.text.toList).map ProbeRow.ofChars? = log.map some ∧
    (∀ other : ProbeLog, other.IsLegible → other.text = log.text → other = log) ∧
    ∀ (name : String) (file : Option Path) (line : UInt32), '\n' ∉ name.toList →
      (∀ p ∈ file, '\n' ∉ p.toString.toList) →
      '\n' ∉ (ImportFailure.heading name file line).toList ∧
      ImportFailure.message ⟨.unresolved name log, file, line⟩ =
        ImportFailure.heading name file line ++ "\n" ++ log.text ∧
      Text.lines (ImportFailure.message ⟨.unresolved name log, file, line⟩).toList =
        (ImportFailure.heading name file line).toList :: Text.lines log.text.toList := by
  have back : ofText? log.text = some log := ofText?_eq_some_iff.2 ⟨legible, rfl⟩
  refine ⟨back, lines_text legible, ?_, ?_, ?_⟩
  · rw [lines_text legible, map_ofChars?_eq_iff]
    exact ⟨fun row hrow => (legible row hrow).label_open, rfl⟩
  · intro other legible' same
    have back' : ofText? other.text = some other := ofText?_eq_some_iff.2 ⟨legible', rfl⟩
    rw [same, back, Option.some.injEq] at back'
    exact back'.symm
  · intro name file line named placed
    have oneLine := ImportFailure.newline_not_mem_heading line named placed
    have ends := ImportFailure.getLast?_heading name file line
    refine ⟨oneLine, ImportFailure.message_unresolved name log file line, ?_⟩
    rw [ImportFailure.message_unresolved, String.toList_append, String.toList_append,
      List.append_assoc]
    exact Text.lines_append_feed oneLine ends (by decide) log.text.toList

/-- Paths that look like ends and starts of rows. -/
def ProbeLog.disguised : ProbeLog :=
  [⟨"origin directory", "/a) b, true", false⟩, ⟨"NODE_PATH", "- (NODE_PATH) /c, false", true⟩]

theorem ProbeLog.text_read_back_disguised :
    disguised.IsLegible ∧ ofText? disguised.text = some disguised ∧
    Text.lines (ImportFailure.message
        ⟨.unresolved "b.js" disguised, some (Path.ofString "/p/main.nako3"), 3⟩).toList =
      ["/p/main.nako3:3: native module 'b.js' was not found; searched the following locations:",
       "- (origin directory) /a) b, true, false",
       "- (NODE_PATH) - (NODE_PATH) /c, false, true"].map String.toList := by
  have legible : disguised.IsLegible := by decide +kernel
  obtain ⟨back, rows, _, _, message⟩ := text_read_back legible
  obtain ⟨_, _, lines⟩ :=
    message "b.js" (some (Path.ofString "/p/main.nako3")) 3 (by decide) (by decide)
  refine ⟨legible, back, ?_⟩
  rw [lines, rows]
  decide +kernel

/-- With a closing bracket in a label a text can be that of two logs. -/
example : ProbeLog.text [⟨"a) b", "c", true⟩] = ProbeLog.text [⟨"a", "b) c", true⟩] := by decide +kernel

end ScriptImports
