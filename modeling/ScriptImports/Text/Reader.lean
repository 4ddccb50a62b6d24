/-!
Readers take a value off the front of a text or fail. They are run one after the other; a reader
that fails leaves the text to its alternative.
-/
namespace ScriptImports.Text

abbrev Reader := StateT (List Char) Option

namespace Reader

variable {α : Type}

def peek? : Reader (Option Char) := fun cs => some (cs.head?, cs)

def next (p : Char → Bool) : Reader Char
  | c :: cs => if p c then some (c, cs) else none
  | [] => none

def char (c : Char) : Reader Unit := do
  let _ ← next (· == c)

def literal (s : String) : Reader Unit := fun cs =>
  if s.toList.isPrefixOf cs then some ((), cs.drop s.toList.length) else none

def takeWhile (p : Char → Bool) : Reader (List Char) := fun cs =>
  some (cs.takeWhile p, cs.dropWhile p)

def skipWhile (p : Char → Bool) : Reader Unit := fun cs => some ((), cs.dropWhile p)

def takeSome (p : Char → Bool) : Reader (List Char) := do
  let c ← next p
  let cs ← takeWhile p
  return c :: cs

def exactly : Nat → (Char → Bool) → Reader (List Char)
  | 0, _ => return []
  | n + 1, p => do
    let c ← next p
    let cs ← exactly n p
    return c :: cs

def option (r : Reader α) : Reader (Option α) := fun cs =>
  match r cs with
  | some (a, rest) => some (some a, rest)
  | none => some (none, cs)

def manyUpTo : Nat → Reader α → Reader (List α)
  | 0, _ => return []
  | n + 1, r => fun cs =>
    match r cs with
    | some (a, rest) => ((a :: ·) <$> manyUpTo n r) rest
    | none => some ([], cs)

/-- Reads as often as `r` can; `r` has to take at least one character each time. -/
def many (r : Reader α) : Reader (List α) := fun cs => manyUpTo cs.length r cs

def separated (separator : Reader Unit) (r : Reader α) : Reader (List α) := do
  let a ← r
  let as ← many do
    separator
    r
  return a :: as

def whole (r : Reader α) (cs : List Char) : Option α :=
  match r cs with
  | some (a, []) => some a
  | _ => none

end Reader

def hexDigit? (c : Char) : Option Nat :=
  if c.isDigit then some (c.toNat - '0'.toNat)
  else if 'a' ≤ c ∧ c ≤ 'f' then some (c.toNat - 'a'.toNat + 10)
  else if 'A' ≤ c ∧ c ≤ 'F' then some (c.toNat - 'A'.toNat + 10)
  else none

/-- The number that digits of a base spell; digits are as `hexDigit?` reads them. -/
def ofDigits (base : Nat) (ds : List Char) : Nat :=
  ds.foldl (fun n c => n * base + (hexDigit? c).getD 0) 0

end ScriptImports.Text
