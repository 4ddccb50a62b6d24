import ScriptImports.CommandLine.Arguments
import ScriptImports.CommandLine.Report
import ScriptImports.Import
import ScriptImports.Settings.Document

/-!
The command line program: it shows where a name resolves, with the probes that were made, or loads
all that a program imports. No native module is registered here, so only scripts can be loaded.
-/
namespace ScriptImports.CommandLine

structure Host where
  environment : Environment
  tree : FileTree
  network : Network
  /-- The file of the program, where the system can tell it. -/
  executable : Except Fault Path
  accountHome : Option Path

structure Output where
  exit : Nat
  out : String
  error : String
deriving DecidableEq

def usage : String := "error: invalid arguments\n\nUsage: nako-loader [OPTIONS] <COMMAND>\n"

def help : String :=
  "Plugin resolution and dependency loading diagnostics\n\n" ++
  "Usage: nako-loader [OPTIONS] <COMMAND>\n\n" ++
  "Commands:\n" ++
  "  resolve <NAME> [--from <FILE>] [--line <LINE>]  Resolve one import name\n" ++
  "  deps <PROGRAM>                                  Load all imports of a program\n\n" ++
  "Options:\n" ++
  "      --runtime-root <DIR>  Runtime installation root\n" ++
  "      --config <FILE>       Loader configuration file\n" ++
  "  -v, --verbose             Accepted, and changes nothing: no log is written\n" ++
  "  -h, --help                Print help\n"

/-- The directory above the one that holds the executable. -/
def defaultRuntimeRoot (h : Host) : Except Report Path :=
  match h.executable with
  | .ok file => .ok ((file.parent?.bind Path.parent?).getD (Path.ofString "."))
  | .error fault => .error ⟨"locating executable", [fault.message]⟩

def runtimeRoot (h : Host) (a : Arguments) : Except Report Path :=
  match a.runtimeRoot with
  | some root => .ok root
  | none => defaultRuntimeRoot h

def settings (h : Host) (a : Arguments) : Except Report Settings :=
  match runtimeRoot h a with
  | .error report => .error report
  | .ok root =>
    match a.config.or (Settings.defaultPath h.environment h.accountHome) with
    | none =>
      match Settings.ofEnvironment h.environment h.tree root with
      | .ok s => .ok s
      | .error fault => .error ⟨fault.message, fault.causes⟩
    | some path =>
      match Settings.load h.environment h.tree path root with
      | .ok s => .ok s
      | .error fault => .error ⟨"loading " ++ path.toString, fault.message :: fault.causes⟩

def reportFailure (f : ImportFailure) : Report := ⟨f.message, f.causes⟩

def unlines (lines : List String) : String := String.join (lines.map fun line => line ++ "\n")

def runResolve (h : Host) (s : Settings) (name : String) (origin : Option Path) (line : UInt32) :
    Except Report String :=
  match Resolution.resolve s h.tree ⟨name, origin, line⟩ with
  | .error failure => .error (reportFailure failure)
  | .ok r =>
    .ok (unlines
      ((r.candidate.location.text ++ " (" ++ r.candidate.kind.label ++ ")") ::
        if r.trace = [] then [] else [r.trace.text]))

/-- What a payload is shown as: the size of a script, or what a native module offers. -/
def describe : Payload → String
  | .script text => toString text.utf8ByteSize ++ " bytes"
  | .native factory =>
    factory.exports.name ++ " [" ++ ", ".intercalate factory.exports.functions ++ "]"

def dependencyLine (program : Path) (d : Dependency) : String :=
  program.toString ++ ":" ++ toString d.reference.line ++ " " ++ d.reference.name ++ " -> " ++
    d.candidate.location.text ++ " (" ++ describe d.payload ++ ")"

def runDeps (h : Host) (s : Settings) (schedule : Schedule) (program : Path) :
    Except Report String :=
  match h.tree.readText program with
  | .error fault => .error ⟨"reading " ++ program.toString, [fault.message]⟩
  | .ok code =>
    let shown := (h.tree.canonical program).toOption.getD program
    let references := Statement.scan code (some shown)
    if references = [] then .ok (unlines ["no imports"])
    else
      let world : World := ⟨h.tree, ⟨s.stagingDir, []⟩, h.network, .empty⟩
      match (world.loadReferences s schedule references).2 with
      | .error failure => .error (reportFailure failure)
      | .ok dependencies => .ok (unlines (dependencies.map (dependencyLine shown)))

def runCommand (h : Host) (schedule : Schedule) (a : Arguments) : Except Report String :=
  match settings h a with
  | .error report => .error report
  | .ok s =>
    match a.command with
    | .resolve name origin line => runResolve h s name origin line
    | .deps program => runDeps h s schedule program

/-- Runs a line of arguments. The exit status is 0, or 1 for an error, or 2 for arguments that do
not fit. -/
def run (h : Host) (schedule : Schedule) (words : List String) : Output :=
  match parse words with
  | .error .usage => ⟨2, "", usage⟩
  | .error .help => ⟨0, help, ""⟩
  | .ok arguments =>
    match runCommand h schedule arguments with
    | .ok out => ⟨0, out, ""⟩
    | .error report => ⟨1, "", report.text⟩

end ScriptImports.CommandLine
