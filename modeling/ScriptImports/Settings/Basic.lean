import ScriptImports.Path

/-!
The settings of an installation: where modules are looked for, which suffixes they have, and how
remote ones are fetched and staged.
-/
namespace ScriptImports

/-- The variables of the environment, by name. -/
abbrev Environment := String → Option PathText

structure Settings where
  /-- The root of the runtime, which holds `src`, `core` and `node_modules`. -/
  installRoot : Path
  /-- The base of relative files and of imports that come from no file. -/
  workingDir : Path
  libRoot : Option Path
  homeRoot : Option Path
  globalPaths : List Path
  /-- The directory of the engine's package below `node_modules`. -/
  enginePackage : String
  /-- Where remote native modules are written before they are loaded. -/
  stagingDir : Path
  nativeExtensions : List String
  scriptExtensions : List String
  /-- In seconds; without it a fetch may take forever. -/
  fetchTimeout : Option Nat
  userAgent : String
deriving DecidableEq

namespace Settings

def temporaryDir (env : Environment) : Path := ((env "TMPDIR").map Path.mk).getD (.ofString "/tmp")

def default (env : Environment) : Settings where
  installRoot := Path.ofString "."
  workingDir := Path.ofString "."
  libRoot := none
  homeRoot := none
  globalPaths := []
  enginePackage := "nadesiko3core"
  stagingDir := (temporaryDir env).child "com.nadesi.v3.cnako"
  nativeExtensions := ["mjs", "js", "so", "dylib", "dll"]
  scriptExtensions := ["nako3", "nako"]
  fetchTimeout := some 30
  userAgent := "nako-loader/0.1.0"

/-- The plugins that come with the runtime. -/
def runtimeSrc (s : Settings) : Path := s.installRoot.child "src"

/-- The plugins that come with the engine. -/
def engineSrc (s : Settings) : Path := (s.installRoot.child "core").child "src"

def nodeModules (s : Settings) : Path := s.installRoot.child "node_modules"

def enginePackageSrc (s : Settings) : Path := (s.nodeModules.child s.enginePackage).child "src"

end Settings

end ScriptImports
