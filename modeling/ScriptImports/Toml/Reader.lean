import ScriptImports.Text.Reader
import ScriptImports.Toml.Basic

/-!
The document that a TOML text spells, or nothing where the text breaks the grammar, defines a key
twice, or nests too deep.
-/
namespace ScriptImports.Toml

open Text

/-- How many arrays and inline tables may stand inside one another, and how many parts a key may
have. -/
def maxNesting : Nat := 79

def isSpace (c : Char) : Bool := c == ' ' || c == '\t'

/-- Characters that a comment may hold; of the control characters that is only the tab. -/
def isPrintable (c : Char) : Bool := c == '\t' || (0x20 ≤ c.toNat && c.toNat != 0x7F)

def isBareKey (c : Char) : Bool := c.isAlphanum || c == '-' || c == '_'

def space : Reader Unit := Reader.skipWhile isSpace

def newline : Reader Unit := Reader.char '\n' <|> Reader.literal "\r\n"

def atEnd : Reader Unit := fun cs => if cs = [] then some ((), []) else none

def comment : Reader Unit := do
  Reader.char '#'
  Reader.skipWhile isPrintable

def lineEnd : Reader Unit := do
  space
  let _ ← Reader.option comment
  newline <|> atEnd

/-- Space, comments and line ends between the items of an array. -/
def spaceAndLines : Reader Unit := do
  let _ ← Reader.many do
    space
    let _ ← Reader.option comment
    newline
  space

def escape? : Char → Option Char
  | '"' => some '"'
  | '\\' => some '\\'
  | 'b' => some '\x08'
  | 'f' => some '\x0c'
  | 'n' => some '\n'
  | 'r' => some '\r'
  | 't' => some '\t'
  | _ => none

def codePoint (count : Nat) : Reader Char := do
  let digits ← Reader.exactly count fun c => (hexDigit? c).isSome
  let n := ofDigits 16 digits
  if n < 0xD800 ∨ (0xDFFF < n ∧ n < 0x110000) then return Char.ofNat n else failure

def escaped : Reader Char := do
  match ← Reader.next fun _ => true with
  | 'u' => codePoint 4
  | 'U' => codePoint 8
  | c => (escape? c).elim failure pure

/-- What a character class and escapes spell up to where neither reads on. -/
def basicBody : Reader (List Char) :=
  Reader.many do
    (Reader.next fun c => isPrintable c && c != '"' && c != '\\') <|> do
      Reader.char '\\'
      escaped

def basicString : Reader String := do
  Reader.char '"'
  let text ← basicBody
  Reader.char '"'
  return String.ofList text

def literalString : Reader String := do
  Reader.char '\''
  let text ← Reader.takeWhile fun c => isPrintable c && c != '\''
  Reader.char '\''
  return String.ofList text

/-- One or two quotes inside a text between triple quotes. -/
def innerQuotes (quote : Char) : Reader (List Char) := fun cs =>
  let run := cs.takeWhile (· == quote)
  if 0 < run.length ∧ run.length < 3 then some (run, cs.dropWhile (· == quote)) else none

/-- The closing quotes of such a text, and the two at most before them that belong to it. -/
def closingQuotes (quote : Char) : Reader (List Char) := fun cs =>
  let run := (cs.takeWhile (· == quote)).length
  let inner := min 2 (run - 3)
  if run < 3 then none else some (List.replicate inner quote, cs.drop (inner + 3))

/-- A backslash that takes the line end and all space and line ends after it with it. -/
def foldedLine : Reader (List Char) := do
  Reader.char '\\'
  space
  newline
  let _ ← Reader.many (space *> newline)
  space
  return []

def lineBreak : Reader (List Char) := do
  newline
  return ['\n']

/-- The text between triple quotes; a line end right after the first of them does not count. -/
def tripleQuoted (quote : Char) (part : Reader (List Char)) : Reader String := do
  let _ ← Reader.exactly 3 (· == quote)
  let _ ← Reader.option newline
  let parts ← Reader.many (part <|> lineBreak <|> innerQuotes quote)
  let last ← closingQuotes quote
  return String.ofList (parts.flatten ++ last)

def longBasicString : Reader String :=
  tripleQuoted '"'
    (Reader.takeSome (fun c => isPrintable c && c != '"' && c != '\\') <|> foldedLine <|> do
      Reader.char '\\'
      return [← escaped])

def longLiteralString : Reader String :=
  tripleQuoted '\'' (Reader.takeSome fun c => isPrintable c && c != '\'')

def quoted : Reader String := fun cs =>
  if "\"\"\"".toList.isPrefixOf cs then longBasicString cs
  else if "'''".toList.isPrefixOf cs then longLiteralString cs
  else (basicString <|> literalString) cs

def keyPart : Reader String :=
  basicString <|> literalString <|> do
    let cs ← Reader.takeSome isBareKey
    return String.ofList cs

def keyParts : Reader (List String) := do
  let parts ← Reader.separated (Reader.char '.') do
    space
    let part ← keyPart
    space
    return part
  if maxNesting < parts.length then failure else return parts

/-- A key split into the tables it passes through and the name in the last of them. -/
def key : Reader (List String × String) := do
  let parts ← keyParts
  return (parts.dropLast, parts.getLast?.getD "")

def sign : Reader (Option Char) := Reader.option (Reader.next fun c => c == '+' || c == '-')

/-- Digits with single underscores between them, which are left out. -/
def groupedDigits (p : Char → Bool) : Reader (List Char) := do
  let first ← Reader.next p
  let more ← Reader.many ((Reader.char '_' *> Reader.next p) <|> Reader.next p)
  return first :: more

def wholeDigits : Reader (List Char) :=
  (Reader.char '0' *> return ['0']) <|> groupedDigits Char.isDigit

def fractionDigits : Reader (List Char) := do
  Reader.char '.'
  groupedDigits Char.isDigit

def exponent : Reader Int := do
  let _ ← Reader.next fun c => c == 'e' || c == 'E'
  let mark ← sign
  let digits ← groupedDigits Char.isDigit
  return if mark = some '-' then -(ofDigits 10 digits : Int) else ofDigits 10 digits

/-- Whether a decimal rounds to infinity rather than to a double. -/
def isBeyondDoubles (digits : List Char) (power : Int) : Bool :=
  let significant := digits.dropWhile (· == '0')
  let n := ofDigits 10 significant
  let limit := Nat.pow 2 1024 - Nat.pow 2 970
  let size := significant.length + power
  if significant = [] ∨ size < 309 then false
  else if 309 < size then true
  else if 0 ≤ power then limit ≤ n * Nat.pow 10 power.toNat
  else limit * Nat.pow 10 (-power).toNat ≤ n

def textOf {α : Type} (r : Reader α) : Reader String := fun cs =>
  (r cs).map fun (_, rest) => (String.ofList (cs.take (cs.length - rest.length)), rest)

def decimalFloat : Reader Unit := do
  let mark ← sign
  let whole ← wholeDigits
  let fraction ← Reader.option fractionDigits
  let power ← Reader.option exponent
  if fraction.isNone ∧ power.isNone then failure
  let fraction := fraction.getD []
  if mark ≠ some '-' ∧ isBeyondDoubles (whole ++ fraction) (power.getD 0 - fraction.length) then
    failure

def specialFloat : Reader Unit := do
  let _ ← sign
  Reader.literal "inf" <|> Reader.literal "nan"

def floatValue : Reader Toml := Toml.float <$> textOf (decimalFloat <|> specialFloat)

def inRange (n : Int) : Reader Toml :=
  if Int64.minValue.toInt ≤ n ∧ n ≤ Int64.maxValue.toInt then return .integer n else failure

def based (mark : String) (base : Nat) (p : Char → Bool) : Reader Toml := do
  Reader.literal mark
  let digits ← groupedDigits p
  inRange (ofDigits base digits)

def decimal : Reader Toml := do
  let mark ← sign
  let digits ← wholeDigits
  inRange (if mark = some '-' then -(ofDigits 10 digits : Int) else ofDigits 10 digits)

def integerValue : Reader Toml :=
  based "0x" 16 (fun c => (hexDigit? c).isSome) <|>
  based "0o" 8 (fun c => '0' ≤ c ∧ c ≤ '7') <|>
  based "0b" 2 (fun c => c == '0' || c == '1') <|>
  decimal

def field (count low high : Nat) : Reader Nat := do
  let digits ← Reader.exactly count Char.isDigit
  let n := ofDigits 10 digits
  if low ≤ n ∧ n ≤ high then return n else failure

def daysInMonth (year month : Nat) : Nat :=
  if month = 2 then
    if year % 4 = 0 ∧ (year % 100 ≠ 0 ∨ year % 400 = 0) then 29 else 28
  else if month ∈ [4, 6, 9, 11] then 30
  else 31

def date : Reader Unit := do
  let year ← field 4 0 9999
  Reader.char '-'
  let month ← field 2 1 12
  Reader.char '-'
  let _ ← field 2 1 (daysInMonth year month)

def time : Reader Unit := do
  let _ ← field 2 0 23
  Reader.char ':'
  let _ ← field 2 0 59
  Reader.char ':'
  let _ ← field 2 0 60
  let _ ← Reader.option do
    Reader.char '.'
    Reader.takeSome Char.isDigit

def offset : Reader Unit :=
  (do let _ ← Reader.next fun c => c == 'Z' || c == 'z') <|> do
    let _ ← Reader.next fun c => c == '+' || c == '-'
    let _ ← field 2 0 23
    Reader.char ':'
    let _ ← field 2 0 59

def dateAndTime : Reader Unit := do
  date
  let _ ← Reader.option do
    let _ ← Reader.next fun c => c == 'T' || c == 't' || c == ' '
    time
    Reader.option offset

def dateValue : Reader Toml := Toml.datetime <$> textOf (dateAndTime <|> time)

def arrayOf (nested : Reader Toml) : Reader Toml := do
  Reader.char '['
  let items ← Reader.option (Reader.separated (Reader.char ',') do
    spaceAndLines
    let v ← nested
    spaceAndLines
    return v)
  if items.isSome then
    let _ ← Reader.option (Reader.char ',')
  spaceAndLines
  Reader.char ']'
  return .array (items.getD [])

def pairOf (nested : Reader Toml) : Reader (List String × String × Toml) := do
  let (path, name) ← key
  Reader.char '='
  space
  return (path, name, ← nested)

def inlineTableOf (nested : Reader Toml) : Reader Toml := do
  Reader.char '\x7b'
  let pairs ← Reader.option (Reader.separated (Reader.char ',') do
    let pair ← pairOf nested
    space
    return pair)
  space
  Reader.char '\x7d'
  match (pairs.getD []).foldlM (fun t (path, name, v) => TomlTable.insert t path name v) [] with
  | some entries => return .table .inline entries
  | none => failure

/-- A value; `nested` reads the parts of an array or a table, where one is still allowed. -/
def valueOf (nested : Option (Reader Toml)) : Reader Toml := do
  match ← Reader.peek? with
  | some '"' | some '\'' => Toml.string <$> quoted
  | some '[' => nested.elim failure arrayOf
  | some '\x7b' => nested.elim failure inlineTableOf
  | some 't' => Reader.literal "true"; return .boolean true
  | some 'f' => Reader.literal "false"; return .boolean false
  | _ => dateValue <|> floatValue <|> integerValue

def value : Nat → Reader Toml
  | 0 => valueOf none
  | depth + 1 => valueOf (some (value depth))

inductive Line where
  | blank
  | opening (path : List String) (name : String)
  | openingNext (path : List String) (name : String)
  | pair (path : List String) (name : String) (v : Toml)

def header : Reader Line := do
  Reader.char '['
  let line ← (do
    Reader.char '['
    let (path, name) ← key
    Reader.literal "]]"
    return .openingNext path name) <|> do
    let (path, name) ← key
    Reader.char ']'
    return .opening path name
  lineEnd
  return line

/-- A line with something in it: a comment, a header or a pair, or at least its end. -/
def line : Reader Line := do
  space
  match ← Reader.peek? with
  | some '[' => header
  | some '#' =>
    lineEnd
    return .blank
  | some '\n' | some '\r' =>
    newline
    return .blank
  | _ =>
    let (path, name, v) ← pairOf (value maxNesting)
    lineEnd
    return .pair path name v

/-- A document as it grows line by line, with the path of the table that was opened last. -/
structure Draft where
  header : List String
  table : TomlTable

def Draft.add (d : Draft) : Line → Option Draft
  | .blank => some d
  | .opening path name =>
    (d.table.openTable path name).map fun t => ⟨path ++ [name], t⟩
  | .openingNext path name =>
    (d.table.openNext path name).map fun t => ⟨path ++ [name], t⟩
  | .pair path name v =>
    (d.table.insertBelow d.header path name v).map fun t => { d with table := t }

/-- The document that a whole text spells; a byte order mark at its start does not count. -/
def ofText? (text : String) : Option TomlTable := do
  let lines ← Reader.whole (do
    let _ ← Reader.option (Reader.char '\ufeff')
    let lines ← Reader.many line
    space
    return lines) text.toList
  let draft ← lines.foldlM Draft.add ⟨[], []⟩
  return draft.table

end ScriptImports.Toml
