/-!
How an error is shown to the user: its message, and then the messages of its causes, indented and,
if there are several, numbered from 0.
-/
namespace ScriptImports.CommandLine

structure Report where
  message : String
  causes : List String
deriving DecidableEq

namespace Report

def spaces (count : Nat) : String := String.ofList (List.replicate count ' ')

/-- A text whose first line starts with `first` and every other line with `others`. -/
def indented (first others text : String) : String :=
  first ++ ("\n" ++ others).intercalate ((text.toList.splitOn '\n').map String.ofList)

def ordinal (i : Nat) : String :=
  let digits := toString i
  spaces (5 - digits.length) ++ digits ++ ": "

def causeLines : List String → List String
  | [] => []
  | [cause] => [indented (spaces 4) (spaces 4) cause]
  | causes => causes.zipIdx.map fun (cause, i) => indented (ordinal i) (spaces 7) cause

def text (r : Report) : String :=
  let head := "Error: " ++ r.message ++ "\n"
  if r.causes = [] then head
  else head ++ "\nCaused by:\n" ++ "\n".intercalate (causeLines r.causes) ++ "\n"

end Report

end ScriptImports.CommandLine
