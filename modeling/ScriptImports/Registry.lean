import ScriptImports.Failure

/-!
The native modules that the host knows, by file name. A file gives the module registered under its
name; a staged file, whose name is a flattened URL, gives the one with the longest name that the
flattened URL ends in.
-/
namespace ScriptImports

structure Exports where
  name : String
  functions : List String
deriving DecidableEq

/-- A loaded native module: the file it came from and what it offers. -/
structure Factory where
  source : Path
  exports : Exports
deriving DecidableEq

structure Registry where
  plugins : List (String × Exports)
  /-- No name is registered twice. -/
  distinct : (plugins.map fun p => p.1).Nodup := by decide

namespace Registry

def empty : Registry := ⟨[], .nil⟩

/-- Registers a module; an earlier one of the same name is forgotten. -/
def register (r : Registry) (fileName : String) (exports : Exports) : Registry where
  plugins := (fileName, exports) :: r.plugins.filter fun p => p.1 != fileName
  distinct := by
    rw [List.map_cons, List.nodup_cons]
    exact ⟨by simp, r.distinct.sublist (List.filter_sublist.map _)⟩

theorem lookup_register (r : Registry) (added fileName : String) (exports : Exports) :
    (r.register added exports).plugins.lookup fileName =
      if fileName = added then some exports else r.plugins.lookup fileName := by
  have look (plugins : List (String × Exports)) (h : fileName ≠ added) :
      (plugins.filter fun p => p.1 != added).lookup fileName = plugins.lookup fileName := by
    induction plugins with
    | nil => rfl
    | cons p ps ih => by_cases same : p.1 = added <;> grind
  by_cases h : fileName = added <;> grind [register]

def contains (r : Registry) (fileName : String) : Bool := (r.plugins.lookup fileName).isSome

/-- Whether a file name is a flattened `http://` or `https://` URL. -/
def isStagedName (fileName : String) : Bool :=
  "http___".toList.isPrefixOf fileName.toList || "https___".toList.isPrefixOf fileName.toList

/-- Whether a flattened URL ends in a name that an underscore sets off. -/
def endsInName (fileName name : String) : Bool :=
  ('_' :: name.toList).isSuffixOf fileName.toList

def longest : List (String × Exports) → Option (String × Exports)
  | [] => none
  | p :: ps =>
    match longest ps with
    | none => some p
    | some q => if q.1.utf8ByteSize < p.1.utf8ByteSize then some p else some q

def lookup (r : Registry) (fileName : String) : Option Exports :=
  match r.plugins.lookup fileName with
  | some exports => some exports
  | none =>
    if isStagedName fileName then
      (longest (r.plugins.filter fun p => endsInName fileName p.1)).map fun p => p.2
    else none

/-- The native module in a file, which has to be a regular one. -/
def load (r : Registry) (tree : FileTree) (path : Path) : Except CodeFault Factory :=
  match tree.lookAt path with
  | .error fault => .error (.io fault)
  | .ok (.file _) =>
    let fileName := PathText.shown (path.fileName?.getD [])
    match r.lookup fileName with
    | some exports => .ok ⟨path, exports⟩
    | none => .error (.unregistered fileName)
  | .ok _ => .error .missing

end Registry

end ScriptImports
