/-!
TOML values, and tables that grow key by key. A table remembers how it came about, since that decides
what a document may still add to it.
-/
namespace ScriptImports

inductive TomlOrigin where
  /-- Written inside braces, and complete. -/
  | inline
  /-- Opened by a header of its own, or the document itself. -/
  | header
  /-- Passed through by the header of a table inside it. -/
  | passed
  | dotted
deriving DecidableEq

inductive Toml where
  | string (text : String)
  | integer (n : Int)
  | float (text : String)
  | boolean (value : Bool)
  | datetime (text : String)
  | array (items : List Toml)
  | table (origin : TomlOrigin) (entries : List (String × Toml))
  /-- The tables of one `[[header]]`, the last one first. -/
  | tables (items : List (List (String × Toml)))

/-- The entries of a table in the order they were added. -/
abbrev TomlTable := List (String × Toml)

namespace TomlTable

def set (t : TomlTable) (key : String) (v : Toml) : TomlTable :=
  if (t.lookup key).isSome then t.map fun e => if e.1 = key then (key, v) else e
  else t ++ [(key, v)]

/-- Changes the table at the end of a path. Missing tables on the way are made, of the origin
`made`. Dotted keys pass only through tables that no header and no braces have written. -/
def within (made : TomlOrigin) :
    List String → TomlOrigin → TomlTable → (TomlOrigin → TomlTable → Option TomlTable) →
      Option TomlTable
  | [], origin, t, change => change origin t
  | key :: path, _, t, change =>
    match t.lookup key with
    | none => (within made path made [] change).map fun child => t.set key (.table made child)
    | some (.table origin child) =>
      if origin = .inline ∨ (made = .dotted ∧ origin = .header) then none
      else (within made path origin child change).map fun child =>
        t.set key (.table origin child)
    | some (.tables (last :: before)) =>
      (within made path .header last change).map fun last => t.set key (.tables (last :: before))
    | some _ => none

/-- Adds a value under a dotted key. The key has to be new, and a dotted key adds only to tables
that dotted keys made. -/
def insert (t : TomlTable) (path : List String) (key : String) (v : Toml) : Option TomlTable :=
  within .dotted path .header t fun origin t =>
    if decide (origin = .dotted) = path.isEmpty then none
    else if (t.lookup key).isSome then none
    else some (t ++ [(key, v)])

/-- Opens the table of a header. A table is opened once; one that was only passed through keeps
what it has. -/
def openTable (t : TomlTable) (path : List String) (key : String) : Option TomlTable :=
  within .passed path .header t fun _ t =>
    match t.lookup key with
    | none => some (t.set key (.table .header []))
    | some (.table .passed entries) => some (t.set key (.table .header entries))
    | some _ => none

def openNext (t : TomlTable) (path : List String) (key : String) : Option TomlTable :=
  within .passed path .header t fun _ t =>
    match t.lookup key with
    | none => some (t.set key (.tables [[]]))
    | some (.tables items) => some (t.set key (.tables ([] :: items)))
    | some _ => none

/-- Adds a value to the table that was opened last, which `header` leads to. -/
def insertBelow (t : TomlTable) (header path : List String) (key : String) (v : Toml) :
    Option TomlTable :=
  within .passed header .header t fun _ t => t.insert path key v

end TomlTable

end ScriptImports
