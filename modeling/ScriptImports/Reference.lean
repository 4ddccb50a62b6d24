import ScriptImports.Path

/-!
What a program asks for and where it is found: a reference is the name in one import statement with
its place in the text, a candidate is the location chosen for it.
-/
namespace ScriptImports

structure Reference where
  name : String
  /-- The file that holds the import statement. -/
  file : Option Path
  /-- The line of the statement, from 1; 0 where no line is known. -/
  line : UInt32
deriving DecidableEq

/-- Native modules are code for the host; scripts are text that joins the importing program. -/
inductive ModuleKind where
  | native
  | script
deriving DecidableEq

def ModuleKind.label : ModuleKind → String
  | .native => "native"
  | .script => "script"

inductive Location where
  | path (p : Path)
  | url (u : String)
deriving DecidableEq

def Location.text : Location → String
  | .path p => p.toString
  | .url u => u

structure Candidate where
  kind : ModuleKind
  location : Location
deriving DecidableEq

end ScriptImports
