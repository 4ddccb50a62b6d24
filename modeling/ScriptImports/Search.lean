import ScriptImports.Descriptor
import ScriptImports.Settings.Basic

/-!
The search for native modules. An absolute or a relative name has one candidate; a bare name has a
plan, an ordered list of candidates of which the first that verifies wins.
-/
namespace ScriptImports

structure SearchStep where
  label : String
  path : Path
deriving DecidableEq

namespace Search

/-- The directory that a relative name is read from: that of the importing file, or else the
working directory. -/
def originDir (s : Settings) : Option Path → Path
  | some file => file.folder s.workingDir
  | none => s.workingDir.anchor Path.root

/-- The candidates for a bare name, in the order they are tried. -/
def plan (s : Settings) (name : String) (origin : Option Path) : List SearchStep :=
  let anchored (p : Path) := p.anchor s.workingDir
  let install := anchored s.installRoot
  [⟨"origin directory", (originDir s origin).child name⟩] ++
  (if Name.isBundled name then
    [⟨"runtime src", (anchored s.runtimeSrc).child name⟩,
     ⟨"engine src", (anchored s.engineSrc).child name⟩]
  else []) ++
  (s.libRoot.toList.map fun lib => ⟨"NAKO_LIB", (anchored lib).child name⟩) ++
  [⟨"runtime node_modules", (install.child "node_modules").child name⟩,
   ⟨"runtime sibling", (anchored (install.child "..")).child name⟩,
   ⟨"engine package", (anchored s.enginePackageSrc).child name⟩] ++
  (s.homeRoot.toList.flatMap fun home =>
    [⟨"NAKO_HOME", ((anchored home).child "node_modules").child name⟩,
     ⟨"NAKO_HOME/src", ((anchored home).child "src").child name⟩]) ++
  (s.globalPaths.map fun path => ⟨"NODE_PATH", (anchored path).child name⟩)

/-- The candidates for a name of any form that is not a URL. -/
def candidates (s : Settings) (name : String) (origin : Option Path) : List SearchStep :=
  match Name.form name with
  | .url => []
  | .absolute => [⟨"absolute path", (Name.toPath name).anchor s.workingDir⟩]
  | .relative => [⟨"relative path", (Path.ofString name).anchor (originDir s origin)⟩]
  | .bare => plan s name origin

/-- The file that a step finds. A descriptor that cannot be used finds none. -/
def verify (s : Settings) (session : ProbeSession) (tree : FileTree) (step : SearchStep) :
    ProbeSession × Option Path :=
  match Descriptor.verify s.nativeExtensions session tree step.path step.label with
  | (session, .ok found) => (session, found)
  | (session, .error _) => (session, none)

def firstVerified (s : Settings) (session : ProbeSession) (tree : FileTree) :
    List SearchStep → ProbeSession × Option Path
  | [] => (session, none)
  | step :: steps =>
    match verify s session tree step with
    | (session, some found) => (session, some found)
    | (session, none) => firstVerified s session tree steps

end Search

/-- Where the module of a name is, with the probes that showed it added to the session. A URL is
where it says. -/
def search (s : Settings) (session : ProbeSession) (tree : FileTree) (name : String)
    (origin : Option Path) : ProbeSession × Option Location :=
  if Name.isUrl name then (session, some (.url name))
  else
    let (session, found) :=
      Search.firstVerified s session tree (Search.candidates s name origin)
    (session, found.map Location.path)

end ScriptImports
