import ScriptImports.FileTree.Read

/-!
Probes: the question whether a path leads to a regular file, asked once per path and logged every
time. A session's log is what a failed search shows.
-/
namespace ScriptImports

structure ProbeRow where
  label : String
  /-- The path as it is printed. -/
  path : String
  found : Bool
deriving DecidableEq

def ProbeRow.text (row : ProbeRow) : String :=
  "- (" ++ row.label ++ ") " ++ row.path ++ ", " ++ if row.found then "true" else "false"

/-- The probes of one search, in the order they were made. -/
abbrev ProbeLog := List ProbeRow

def ProbeLog.text (log : ProbeLog) : String := "\n".intercalate (log.map ProbeRow.text)

/-- Answers that are already known, and how often one of them was used again. -/
structure ProbeCache where
  answers : List (Path.Key × Bool)
  hits : Nat

namespace ProbeCache

def empty : ProbeCache := ⟨[], 0⟩

/-- The known answer for a path, or else the tree's, which is known from then on. -/
def isFile (cache : ProbeCache) (tree : FileTree) (p : Path) : ProbeCache × Bool :=
  match cache.answers.lookup p.key with
  | some found => ({ cache with hits := cache.hits + 1 }, found)
  | none =>
    let found := tree.isFile p
    ({ cache with answers := (p.key, found) :: cache.answers }, found)

end ProbeCache

structure ProbeSession where
  cache : ProbeCache
  log : ProbeLog

namespace ProbeSession

def empty : ProbeSession := ⟨.empty, []⟩

def check (session : ProbeSession) (tree : FileTree) (p : Path) (label : String) :
    ProbeSession × Bool :=
  let (cache, found) := session.cache.isFile tree p
  (⟨cache, session.log ++ [⟨label, p.toString, found⟩]⟩, found)

end ProbeSession

end ScriptImports
