import ScriptImports.Failure
import ScriptImports.Search

/-!
Resolution: from a reference to the one candidate it stands for. Scripts are placed by their names
alone and may not exist; native modules are searched for.
-/
namespace ScriptImports

structure Resolution where
  candidate : Candidate
  trace : ProbeLog
deriving DecidableEq

namespace Resolution

/-- The place of a script. A name that is neither a URL nor rooted needs an importing file. -/
def scriptLocation? (s : Settings) (name : String) (origin : Option Path) : Option Location :=
  if Name.isUrl name then some (.url name)
  else if (Path.ofString name).isRooted then
    some (.path ((Path.ofString name).anchor s.workingDir))
  else origin.map fun file => .path ((Path.ofString name).anchor (file.folder s.workingDir))

/-- Resolves one reference, with a probe session of its own. -/
def resolve (s : Settings) (tree : FileTree) (r : Reference) : Except ImportFailure Resolution :=
  match Name.kind s.nativeExtensions s.scriptExtensions r.name with
  | .script =>
    match scriptLocation? s r.name r.file with
    | some location => .ok ⟨⟨.script, location⟩, []⟩
    | none => .error (r.failure (.missingOrigin r.name))
  | .native =>
    match search s .empty tree r.name r.file with
    | (session, some location) => .ok ⟨⟨.native, location⟩, session.log⟩
    | (session, none) => .error (r.failure (.unresolved r.name session.log))

/-- Resolves every reference, up to the first that fails. -/
def resolveAll (s : Settings) (tree : FileTree) :
    List Reference → Except ImportFailure (List (Reference × Resolution))
  | [] => .ok []
  | r :: rs =>
    match resolve s tree r with
    | .error failure => .error failure
    | .ok resolution =>
      match resolveAll s tree rs with
      | .error failure => .error failure
      | .ok resolved => .ok ((r, resolution) :: resolved)

end Resolution

end ScriptImports
