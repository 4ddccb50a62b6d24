import ScriptImports.Reference

/-!
What the spelling of an imported name says: its form, which decides where it may be looked for, and
its suffix, which decides the kind of module. Nothing here asks the file tree.
-/
namespace ScriptImports.Name

def isUrl (name : String) : Bool :=
  "http://".toList.isPrefixOf name.toList || "https://".toList.isPrefixOf name.toList

/-- A drive marker: one ASCII character, a colon and a backslash. -/
def hasDrive : List Char → Bool
  | drive :: ':' :: '\\' :: _ => drive.utf8Size == 1
  | _ => false

/-- A root slash, a `file:/` scheme or a drive marker. -/
def isAbsolute (name : String) : Bool :=
  "/".toList.isPrefixOf name.toList || "file:/".toList.isPrefixOf name.toList ||
    hasDrive name.toList

/-- The forms of a native module's name. The first that fits owns the name. -/
inductive Form where
  | url
  | absolute
  | relative
  | bare
deriving DecidableEq

def form (name : String) : Form :=
  if isUrl name then .url
  else if isAbsolute name then .absolute
  else if name.toList.head? = some '.' ∨ '/' ∈ name.toList ∨ '\\' ∈ name.toList then .relative
  else .bare

def dropScheme : List Char → List Char
  | 'f' :: 'i' :: 'l' :: 'e' :: ':' :: '/' :: '/' :: rest => rest
  | 'f' :: 'i' :: 'l' :: 'e' :: ':' :: rest => rest
  | cs => cs

/-- The path an absolute name stands for, its `file:` scheme taken off. -/
def toPath (name : String) : Path := .ofString (String.ofList (dropScheme name.toList))

def isBundledChar (c : Char) : Bool := c.isLower || c.isDigit || c == '_'

/-- Names of the plugins that come with the runtime: `plugin_`, then small letters, digits and
underscores, then `.mjs`. What follows is not looked at. -/
def isBundled (name : String) : Bool :=
  "plugin_".toList.isPrefixOf name.toList &&
    (name.toList.drop 7).head?.any isBundledChar &&
    ".mjs".toList.isPrefixOf ((name.toList.drop 7).dropWhile isBundledChar)

/-- What stands before and after the last dot. -/
def splitLastDot : List Char → Option (List Char × List Char)
  | [] => none
  | c :: cs =>
    match splitLastDot cs with
    | some (stem, suffix) => some (c :: stem, suffix)
    | none => if c = '.' then some ([], cs) else none

def dropTxt (cs : List Char) : List Char :=
  if ".txt".toList.isSuffixOf cs then cs.take (cs.length - 4) else cs

/-- Whether the text after the last dot is one of `extensions`. The dot needs something before it,
and no separator may follow it. With `allowTxt`, one `.txt` at the end is passed over first. -/
def hasExtension (cs : List Char) (extensions : List String) (allowTxt : Bool) : Bool :=
  match splitLastDot (if allowTxt then dropTxt cs else cs) with
  | some (stem, suffix) =>
    stem != [] && !suffix.contains '/' && !suffix.contains '\\' &&
      extensions.any fun e => e.toList == suffix
  | none => false

/-- A native suffix wins over a script suffix, and a name with neither is native. -/
def kind (nativeExtensions scriptExtensions : List String) (name : String) : ModuleKind :=
  if hasExtension name.toList nativeExtensions true then .native
  else if hasExtension name.toList scriptExtensions true then .script
  else .native

end ScriptImports.Name
