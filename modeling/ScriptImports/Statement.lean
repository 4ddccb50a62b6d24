import ScriptImports.Text.Blank
import ScriptImports.Text.Line
import ScriptImports.Reference

/-!
Import statements in program text: a bang, a quoted name and the verb 取り込む, of which the stem is
enough. A line is read from the left; a statement that is found hides whatever starts inside it.
-/
namespace ScriptImports.Statement

def isBang (c : Char) : Bool := c == '!' || c == '！'

def isOpening (c : Char) : Bool := c == '「' || c == '『' || c == '"'

def isClosing (c : Char) : Bool := c == '」' || c == '』' || c == '"'

def isNameChar (c : Char) : Bool := !isClosing c && c != '\r' && c != '\n'

def skipBlank (cs : List Char) : List Char := cs.dropWhile Text.isBlank

/-- The text without `c` where it stands first. -/
def skip (c : Char) : List Char → List Char
  | [] => []
  | d :: cs => if d = c then cs else d :: cs

/-- Reads the verb after the closing quote and gives what follows it. -/
def readVerb? (cs : List Char) : Option (List Char) :=
  match skipBlank (skip 'を' (skipBlank cs)) with
  | '取' :: rest =>
    match skip 'り' rest with
    | '込' :: rest => some rest
    | _ => none
  | _ => none

/-- Reads a quoted name and the verb after it; gives the name and what follows the verb. -/
def readQuoted? : List Char → Option (List Char × List Char)
  | [] => none
  | c :: cs =>
    if isOpening c then
      let name := cs.takeWhile isNameChar
      match cs.dropWhile isNameChar with
      | [] => none
      | d :: rest =>
        if isClosing d && name != [] then (readVerb? rest).map fun r => (name, r) else none
    else none

def read? : List Char → Option (List Char × List Char)
  | [] => none
  | c :: cs => if isBang c then readQuoted? (skipBlank cs) else none

theorem length_skipBlank_le (cs : List Char) : (skipBlank cs).length ≤ cs.length :=
  (List.dropWhile_sublist _).length_le

theorem length_skip_le (c : Char) (cs : List Char) : (skip c cs).length ≤ cs.length := by
  fun_cases skip c cs <;> simp

theorem length_lt_of_readVerb? {cs rest : List Char} (h : readVerb? cs = some rest) :
    rest.length < cs.length := by
  have blank := length_skipBlank_le cs
  have particle := length_skip_le 'を' (skipBlank cs)
  have again := length_skipBlank_le (skip 'を' (skipBlank cs))
  unfold readVerb? at h
  split at h
  · next verb hverb =>
    have tail := length_skip_le 'り' verb
    rw [hverb] at again
    split at h
    · next r hr =>
      rw [hr] at tail
      simp only [List.length_cons] at again tail
      cases h
      omega
    · cases h
  · cases h

theorem length_lt_of_readQuoted? {cs name rest : List Char}
    (h : readQuoted? cs = some (name, rest)) : rest.length < cs.length := by
  cases cs with
  | nil => simp [readQuoted?] at h
  | cons c cs =>
    have quoted := (List.dropWhile_sublist (l := cs) isNameChar).length_le
    simp only [readQuoted?] at h
    split at h
    · split at h
      · cases h
      · next d r hd =>
        rw [hd] at quoted
        split at h
        · obtain ⟨r', hr, heq⟩ := Option.map_eq_some_iff.1 h
          have verb := length_lt_of_readVerb? hr
          cases heq
          simp only [List.length_cons] at quoted ⊢
          omega
        · cases h
    · cases h

theorem length_lt_of_read? {cs name rest : List Char} (h : read? cs = some (name, rest)) :
    rest.length < cs.length := by
  cases cs with
  | nil => simp [read?] at h
  | cons c cs =>
    have blank := length_skipBlank_le cs
    simp only [read?] at h
    split at h
    · have quoted := length_lt_of_readQuoted? h
      simp only [List.length_cons]
      omega
    · cases h

/-- A statement in a line: where it starts, how many characters it takes, and the quoted name. -/
structure Occurrence where
  start : Nat
  size : Nat
  name : List Char
deriving DecidableEq

/-- The statements of a text whose first character stands at `start`, from left to right. -/
def occurrencesFrom (start : Nat) (cs : List Char) : List Occurrence :=
  match h : read? cs with
  | some (name, rest) =>
    ⟨start, cs.length - rest.length, name⟩ ::
      occurrencesFrom (start + (cs.length - rest.length)) rest
  | none =>
    match cs with
    | [] => []
    | _ :: tail => occurrencesFrom (start + 1) tail
termination_by cs.length
decreasing_by
  · exact length_lt_of_read? h
  · simp

def occurrences (line : List Char) : List Occurrence := occurrencesFrom 0 line

/-- The names of a line's statements without blanks around them; blank names are no imports. -/
def names (line : List Char) : List (List Char) :=
  ((occurrences line).map fun o => Text.trim o.name).filter (· != [])

/-- The references of a program text, in order, with lines counted from 1. -/
def scan (code : String) (file : Option Path) : List Reference :=
  (Text.lines code.toList).zipIdx.flatMap fun (line, index) =>
    (names line).map fun name => ⟨String.ofList name, file, UInt32.ofNat index + 1⟩

end ScriptImports.Statement
