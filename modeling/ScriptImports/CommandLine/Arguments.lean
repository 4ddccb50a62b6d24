import ScriptImports.Path

/-!
The arguments of the command line: two commands with options of their own, and options that may
stand before the command as well as after it. Arguments are taken one after the other; the first
that does not fit makes the whole line a usage error.
-/
namespace ScriptImports.CommandLine

inductive OptionName where
  | runtimeRoot
  | config
  | verbose
  | origin
  | line
deriving DecidableEq

namespace OptionName

def ofLong? : List Char → Option OptionName
  | name =>
    if name = "runtime-root".toList then some .runtimeRoot
    else if name = "config".toList then some .config
    else if name = "verbose".toList then some .verbose
    else if name = "from".toList then some .origin
    else if name = "line".toList then some .line
    else none

def takesValue (o : OptionName) : Bool := o != .verbose

/-- Options that stand before or after the command, whichever it is. -/
def isGlobal : OptionName → Bool
  | .runtimeRoot | .config | .verbose => true
  | .origin | .line => false

end OptionName

inductive CommandName where
  | resolve
  | deps
  | help
deriving DecidableEq

def CommandName.ofText? : String → Option CommandName
  | "resolve" => some .resolve
  | "deps" => some .deps
  | "help" => some .help
  | _ => none

inductive Command where
  | resolve (name : String) (origin : Option Path) (line : UInt32)
  | deps (program : Path)
deriving DecidableEq

structure Arguments where
  runtimeRoot : Option Path
  config : Option Path
  verbose : Bool
  command : Command
deriving DecidableEq

inductive Stop where
  | usage
  | help
deriving DecidableEq

def decimal? (text : String) : Option Int :=
  let number (digits : List Char) : Option Nat :=
    if digits ≠ [] ∧ digits.all Char.isDigit then
      some (digits.foldl (fun n c => n * 10 + (c.toNat - '0'.toNat)) 0)
    else none
  match text.toList with
  | '-' :: digits => (number digits).map fun n => -(n : Int)
  | '+' :: digits => (number digits).map fun n => (n : Int)
  | digits => (number digits).map fun n => (n : Int)

/-- A line number, which has 32 bits. -/
def lineNumber? (text : String) : Option UInt32 :=
  (decimal? text).bind fun n =>
    if 0 ≤ n ∧ n.toNat < UInt32.size then some (UInt32.ofNat n.toNat) else none

/-- Paths may not be empty, and line numbers have to be numbers. -/
def OptionName.accepts (o : OptionName) (value : String) : Bool :=
  match o with
  | .verbose => true
  | .line => (lineNumber? value).isSome
  | .runtimeRoot | .config | .origin => value != ""

structure Draft where
  command : Option CommandName
  /-- Options before the command. -/
  outer : List (OptionName × String)
  /-- Options after it. -/
  inner : List (OptionName × String)
  operand : Option String
  pending : Option OptionName
  ended : Bool

namespace Draft

def empty : Draft := ⟨none, [], [], none, none, false⟩

/-- Notes an option. Each may be given once before and once after the command. -/
def give (d : Draft) (o : OptionName) (value : String) : Except Stop Draft :=
  if !o.accepts value then .error .usage
  else
    match d.command with
    | none =>
      if o.isGlobal && (d.outer.lookup o).isNone then
        .ok { d with outer := (o, value) :: d.outer, pending := none }
      else .error .usage
    | some command =>
      if (o.isGlobal || command == .resolve) && (d.inner.lookup o).isNone then
        .ok { d with inner := (o, value) :: d.inner, pending := none }
      else .error .usage

/-- Notes a word that is no option: the command, or else what it is about. -/
def addOperand (d : Draft) (word : String) : Except Stop Draft :=
  match d.command, d.operand with
  | none, _ =>
    match CommandName.ofText? word with
    | some command => .ok { d with command := some command }
    | none => .error .usage
  | some command, none =>
    let accepted :=
      match command with
      | .resolve => true
      | .deps => word != ""
      | .help => (CommandName.ofText? word).isSome
    if accepted then .ok { d with operand := some word } else .error .usage
  | some _, some _ => .error .usage

/-- A word that starts with a dash, the dash alone apart, is never a value. -/
def isDashed (word : String) : Bool := word.toList.head? == some '-' && word != "-"

/-- Takes a word with two dashes, which may hold its value after an equals sign. -/
def addLong (d : Draft) (body : List Char) : Except Stop Draft :=
  let name := body.takeWhile (· != '=')
  let value := body.dropWhile (· != '=')
  if name = "help".toList ∧ value = [] then .error .help
  else
    match OptionName.ofLong? name, value with
    | some o, [] => if o.takesValue then .ok { d with pending := some o } else d.give o ""
    | some o, _ :: value =>
      if o.takesValue then d.give o (String.ofList value) else .error .usage
    | none, _ => .error .usage

def addShort (d : Draft) : Char → Except Stop Draft
  | 'v' => d.give .verbose ""
  | 'h' => .error .help
  | _ => .error .usage

/-- Takes one word. What follows `help` can only be the name of a command. -/
def add (d : Draft) (word : String) : Except Stop Draft :=
  match d.pending with
  | some o => if isDashed word then .error .usage else d.give o word
  | none =>
    if d.ended || d.command == some .help || !isDashed word then d.addOperand word
    else
      match word.toList with
      | ['-', '-'] => if d.command.isSome then .ok { d with ended := true } else .error .usage
      | '-' :: '-' :: body => d.addLong body
      | _ :: letters => letters.foldlM addShort d
      | [] => .error .usage

/-- The value of an option; the one after the command is the one that counts. -/
def value? (d : Draft) (o : OptionName) : Option String := (d.inner.lookup o).or (d.outer.lookup o)

def finish (d : Draft) : Except Stop Arguments :=
  let path? (o : OptionName) := (d.value? o).map Path.ofString
  let arguments (command : Command) : Arguments :=
    ⟨path? .runtimeRoot, path? .config, (d.value? .verbose).isSome, command⟩
  match d.pending, d.command, d.operand with
  | none, some .resolve, some name =>
    .ok (arguments (.resolve name (path? .origin) (((d.value? .line).bind lineNumber?).getD 0)))
  | none, some .deps, some program => .ok (arguments (.deps (Path.ofString program)))
  | none, some .help, _ => .error .help
  | _, _, _ => .error .usage

end Draft

def parse (words : List String) : Except Stop Arguments := do
  let draft ← words.foldlM Draft.add .empty
  draft.finish

end ScriptImports.CommandLine
