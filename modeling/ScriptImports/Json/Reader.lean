import ScriptImports.Json.Basic
import ScriptImports.Text.Reader

/-!
The JSON value that a text spells. The grammar is the strict one: no comments, no commas before a
closing bracket, no leading zeros, and only four characters count as white space.
-/
namespace ScriptImports.Json

open Text

def isSpace (c : Char) : Bool := c == ' ' || c == '\t' || c == '\n' || c == '\r'

def escape? : Char → Option Char
  | '"' => some '"'
  | '\\' => some '\\'
  | '/' => some '/'
  | 'b' => some '\x08'
  | 'f' => some '\x0c'
  | 'n' => some '\n'
  | 'r' => some '\r'
  | 't' => some '\t'
  | _ => none

def codeUnit? (a b c d : Char) : Option Nat :=
  if [a, b, c, d].all fun x => (hexDigit? x).isSome then some (ofDigits 16 [a, b, c, d]) else none

/-- The characters and code units of a string up to its closing quote, and what follows it. -/
def stringUnits? : List Char → Option (List (Char ⊕ Nat) × List Char)
  | [] => none
  | '"' :: rest => some ([], rest)
  | '\\' :: 'u' :: a :: b :: c :: d :: rest =>
    (codeUnit? a b c d).bind fun u =>
      (stringUnits? rest).map fun (units, rest) => (.inr u :: units, rest)
  | '\\' :: e :: rest =>
    (escape? e).bind fun c => (stringUnits? rest).map fun (units, rest) => (.inl c :: units, rest)
  | c :: rest =>
    if c.toNat < 0x20 ∨ c = '\\' then none
    else (stringUnits? rest).map fun (units, rest) => (.inl c :: units, rest)

/-- Puts surrogate pairs together; fails where half of a pair is left. -/
def characters? : List (Char ⊕ Nat) → Option (List Char)
  | [] => some []
  | .inl c :: rest => (characters? rest).map (c :: ·)
  | .inr high :: rest =>
    if high < 0xD800 ∨ 0xE000 ≤ high then (characters? rest).map (Char.ofNat high :: ·)
    else
      match rest with
      | .inr low :: rest =>
        if high < 0xDC00 ∧ 0xDC00 ≤ low ∧ low < 0xE000 then
          (characters? rest).map
            (Char.ofNat (0x10000 + (high - 0xD800) * 0x400 + (low - 0xDC00)) :: ·)
        else none
      | _ => none

def stringBody : Reader (Option String) := fun cs =>
  (stringUnits? cs).map fun (units, rest) => ((characters? units).map String.ofList, rest)

def wholeDigits : Reader (List Char) := do
  let first ← Reader.next Char.isDigit
  if first = '0' then return ['0']
  let more ← Reader.takeWhile Char.isDigit
  return first :: more

def fractionDigits : Reader (List Char) := do
  Reader.char '.'
  Reader.takeSome Char.isDigit

def exponent : Reader Int := do
  let _ ← Reader.next fun c => c == 'e' || c == 'E'
  let sign ← Reader.option (Reader.next fun c => c == '+' || c == '-')
  let digits ← Reader.takeSome Char.isDigit
  return if sign = some '-' then -(ofDigits 10 digits : Int) else ofDigits 10 digits

def digits : Reader JsonNumber := do
  let whole ← wholeDigits
  let fraction ← Reader.option fractionDigits
  let power ← Reader.option exponent
  return ⟨whole, fraction.getD [], power.getD 0⟩

def space : Reader Unit := Reader.skipWhile isSpace

def comma : Reader Unit := do
  space
  Reader.char ','

def listUpTo {α : Type} (close : Char) (item : Reader α) : Reader (List α) := do
  let items ← Reader.option (Reader.separated comma item)
  space
  Reader.char close
  return items.getD []

def member (nested : Reader Json) : Reader (Option String × Json) := do
  space
  Reader.char '"'
  let key ← stringBody
  space
  Reader.char ':'
  return (key, ← nested)

/-- A value, whose parts are read by `nested`. -/
def valueOf (nested : Reader Json) : Reader Json := do
  space
  match ← Reader.peek? with
  | some 'n' => Reader.literal "null"; return .null
  | some 't' => Reader.literal "true"; return .boolean true
  | some 'f' => Reader.literal "false"; return .boolean false
  | some '"' => Reader.char '"'; return .string (← stringBody)
  | some '-' => Reader.char '-'; return .number (← digits)
  | some '[' => Reader.char '['; return .array (← listUpTo ']' nested)
  | some '\x7b' => Reader.char '\x7b'; return .object (← listUpTo '\x7d' (member nested))
  | _ => return .number (← digits)

/-- A value with at most `depth` arrays and objects inside one another. -/
def value : Nat → Reader Json
  | 0 => valueOf failure
  | depth + 1 => valueOf (value depth)

/-- The value that a whole text spells. A text nests no deeper than it is long. -/
def ofText? (text : String) : Option Json :=
  Reader.whole (do
    let v ← value text.toList.length
    space
    return v) text.toList

end ScriptImports.Json
