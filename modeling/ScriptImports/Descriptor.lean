import ScriptImports.Json.Reader
import ScriptImports.Name
import ScriptImports.Probe

/-!
Package descriptors, and the verification of a candidate path: a code file stands for itself, and a
directory stands for the entry file that its descriptor names.
-/
namespace ScriptImports

inductive DescriptorFault where
  | noMain (path : Path)
  | malformed (path : Path)
  | unreadable (path : Path) (fault : Fault)
deriving DecidableEq

def DescriptorFault.message : DescriptorFault → String
  | .noMain path => "package descriptor " ++ path.toString ++ " has no \"main\" entry"
  | .malformed path => "package descriptor " ++ path.toString ++ " is not valid JSON"
  | .unreadable path fault =>
    "package descriptor " ++ path.toString ++ " could not be read: " ++ fault.message

namespace Descriptor

def fileName : String := "package.json"

/-- How many arrays and objects may stand inside one another in the value of `main`. -/
def maxDepth : Nat := 126

/-- The value of `main`, if the document has the shape of a descriptor: an object with at most one
`main`, whose other values are not looked at, or an array of at most that value. -/
def mainValue? : Json → Option (Option Json)
  | .array [] => some none
  | .array [v] => if v.isUsable maxDepth then some (some v) else none
  | .object members =>
    if members.all fun m => m.1.isSome then
      match members.filter fun m => m.1 = some "main" with
      | [] => some none
      | [m] => if m.2.isUsable maxDepth then some (some m.2) else none
      | _ => none
    else none
  | _ => none

/-- The entry file that a descriptor's text names. -/
def main? (path : Path) (text : String) : Except DescriptorFault String :=
  match (Json.ofText? text).bind mainValue? with
  | none => .error (.malformed path)
  | some (some (.string (some name))) => if name = "" then .error (.noMain path) else .ok name
  | some _ => .error (.noMain path)

def read (tree : FileTree) (path : Path) : Except DescriptorFault String :=
  match tree.readText path with
  | .ok text => main? path text
  | .error fault => .error (.unreadable path fault)

/-- The file that a candidate stands for: itself, where it has one of the code extensions and is a
file, or else what its descriptor names, whether or not that exists. Without either there is
none. -/
def verify (extensions : List String) (session : ProbeSession) (tree : FileTree) (candidate : Path)
    (label : String) : ProbeSession × Except DescriptorFault (Option Path) :=
  let (session, direct) :=
    if Name.hasExtension candidate.toString.toList extensions false then
      session.check tree candidate label
    else (session, false)
  if direct then (session, .ok (some candidate))
  else
    let descriptor := candidate.child fileName
    let (session, described) := session.check tree descriptor (label ++ "/" ++ fileName)
    if described then
      match read tree descriptor with
      | .ok main => (session, .ok (some (candidate.child main).normalize))
      | .error fault => (session, .error fault)
    else (session, .ok none)

end Descriptor

end ScriptImports
