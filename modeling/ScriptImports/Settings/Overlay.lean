import ScriptImports.Settings.Basic

/-!
Roots from the environment. A root that the settings already have stays; a variable that is empty,
or a list of nothing but separators, sets none.
-/
namespace ScriptImports.Settings

def nonEmpty? (env : Environment) (name : String) : Option PathText :=
  (env name).filter (· != [])

/-- The paths of a list with `:` between them, empty ones left out. -/
def splitPaths (list : PathText) : List Path :=
  ((list.splitOn (.char ':')).filter (· != [])).map Path.mk

def overlay (s : Settings) (env : Environment) : Settings :=
  { s with
    libRoot := s.libRoot.or ((nonEmpty? env "NAKO_LIB").map Path.mk)
    homeRoot := s.homeRoot.or ((nonEmpty? env "NAKO_HOME").map Path.mk)
    globalPaths :=
      if s.globalPaths = [] then ((nonEmpty? env "NODE_PATH").map splitPaths).getD []
      else s.globalPaths }

end ScriptImports.Settings
