import ScriptImports.FileTree.Read
import ScriptImports.Settings.Overlay
import ScriptImports.Toml.Reader

/-!
Settings from a TOML document and from the places around it. What the document sets stays; what it
leaves open comes from the arguments, the current directory and the environment.
-/
namespace ScriptImports

inductive SettingsFault where
  | read (path : Path) (fault : Fault)
  | malformed (path : Path)
  | workingDir (fault : Fault)
deriving DecidableEq

namespace SettingsFault

def message : SettingsFault → String
  | .read path fault => "reading configuration from " ++ path.toString ++ ": " ++ fault.message
  | .malformed path => "parsing configuration " ++ path.toString
  | .workingDir fault => "unable to determine the working directory: " ++ fault.message

def causes : SettingsFault → List String
  | .read _ fault | .workingDir fault => [fault.message]
  | .malformed _ => []

end SettingsFault

namespace Settings

def stringOf? : Toml → Option String
  | .string text => some text
  | _ => none

def stringsOf? : Toml → Option (List String)
  | .array items => items.mapM stringOf?
  | _ => none

def countOf? : Toml → Option Nat
  | .integer n => if 0 ≤ n then some n.toNat else none
  | _ => none

/-- The settings with one more entry of a document; an entry of an unknown name sets nothing. -/
def setEntry (s : Settings) (name : String) (v : Toml) : Option Settings :=
  let path := (stringOf? v).map Path.ofString
  match name with
  | "install_root" => path.map fun p => { s with installRoot := p }
  | "working_dir" => path.map fun p => { s with workingDir := p }
  | "lib_root" => path.map fun p => { s with libRoot := some p }
  | "home_root" => path.map fun p => { s with homeRoot := some p }
  | "global_module_paths" =>
    (stringsOf? v).map fun ps => { s with globalPaths := ps.map Path.ofString }
  | "engine_package" => (stringOf? v).map fun x => { s with enginePackage := x }
  | "staging_dir" => path.map fun p => { s with stagingDir := p }
  | "native_extensions" => (stringsOf? v).map fun xs => { s with nativeExtensions := xs }
  | "script_extensions" => (stringsOf? v).map fun xs => { s with scriptExtensions := xs }
  | "fetch_timeout_secs" => (countOf? v).map fun n => { s with fetchTimeout := some n }
  | "user_agent" => (stringOf? v).map fun x => { s with userAgent := x }
  | _ => some s

/-- The settings of a document: the default ones where it has no entry. -/
def ofDocument? (env : Environment) (document : TomlTable) : Option Settings :=
  document.foldlM (fun s e => setEntry s e.1 e.2) (default env)

/-- The path of the current directory, which may be gone. -/
def currentDir (tree : FileTree) : Except SettingsFault Path :=
  match tree.node? tree.current with
  | some .directory => .ok (Path.ofSegments true tree.current)
  | _ => .error (.workingDir .notFound)

/-- Settings for an installation, without a document. -/
def ofEnvironment (env : Environment) (tree : FileTree) (installRoot : Path) :
    Except SettingsFault Settings :=
  match currentDir tree with
  | .error fault => .error fault
  | .ok directory =>
    .ok ({ default env with installRoot := installRoot, workingDir := directory }.overlay env)

/-- Whether a document leaves a path open. The paths `.` count as open, however they are spelled. -/
def isOpen (p : Path) : Bool := p.same (Path.ofString ".")

/-- Fills what a document left open. -/
def complete (s : Settings) (env : Environment) (tree : FileTree) (installRoot : Path) :
    Except SettingsFault Settings :=
  let s := { s with installRoot := if isOpen s.installRoot then installRoot else s.installRoot }
  if isOpen s.workingDir then
    match currentDir tree with
    | .error fault => .error fault
    | .ok directory => .ok ({ s with workingDir := directory }.overlay env)
  else .ok (s.overlay env)

def load (env : Environment) (tree : FileTree) (path installRoot : Path) :
    Except SettingsFault Settings :=
  if tree.exists? path then
    match tree.readText path with
    | .error fault => .error (.read path fault)
    | .ok text =>
      match (Toml.ofText? text).bind (ofDocument? env) with
      | some s => s.complete env tree installRoot
      | none => .error (.malformed path)
  else (default env).complete env tree installRoot

/-- Where the document is looked for when no path is given: in the user's configuration directory,
which the environment gives, or else the home directory of the account. -/
def defaultPath (env : Environment) (accountHome : Option Path) : Option Path :=
  let xdg := ((env "XDG_CONFIG_HOME").map Path.mk).filter Path.isRooted
  let home := ((nonEmpty? env "HOME").map Path.mk).or accountHome
  (xdg.or (home.map fun h => h.child ".config")).map fun dir =>
    (dir.child "nako").child "loader.toml"

end Settings

end ScriptImports
