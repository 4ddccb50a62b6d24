import ScriptImports.Probe
import ScriptImports.Reference

/-!
Why an import fails, with the statement that asked for it, and the words for each failure.
-/
namespace ScriptImports

inductive CodeFault where
  | unregistered (fileName : String)
  | missing
  | manifest (text : String)
  | library (text : String)
  | io (fault : Fault)
deriving DecidableEq

def CodeFault.message : CodeFault → String
  | .unregistered fileName => "no native module registered for '" ++ fileName ++ "'"
  | .missing => "missing file"
  | .manifest text => "invalid plugin manifest: " ++ text
  | .library text => text
  | .io fault => fault.message

inductive FailureCause where
  | unresolved (name : String) (trace : ProbeLog)
  | missingOrigin (name : String)
  | fetch (url : String) (status : Option Nat) (reason : String)
  | staging (url : String) (path : Path) (fault : Fault)
  | code (path : Path) (fault : CodeFault)
  | read (path : Path) (reason : String)
  | aborted (detail : String)
deriving DecidableEq

namespace FailureCause

def message : FailureCause → String
  | .unresolved name trace =>
    "native module '" ++ name ++ "' was not found; searched the following locations:\n" ++
      trace.text
  | .missingOrigin name => "cannot resolve '" ++ name ++ "' without an importing file name"
  | .fetch url (some status) reason =>
    "download from '" ++ url ++ "' failed: " ++ toString status ++ " " ++ reason
  | .fetch url none reason => "download from '" ++ url ++ "' failed: " ++ reason
  | .staging url path fault =>
    "module downloaded from '" ++ url ++ "' could not be written to " ++ path.toString ++ ": " ++
      fault.message
  | .code path fault =>
    "module '" ++ path.toString ++ "' could not be loaded: " ++ fault.message
  | .read path reason => "script '" ++ path.toString ++ "' could not be read: " ++ reason
  | .aborted detail => "loader task aborted: " ++ detail

/-- The messages of what lies beneath the failure, outermost first. -/
def causes : FailureCause → List String
  | .staging _ _ fault => [fault.message]
  | .code _ fault => [fault.message]
  | _ => []

end FailureCause

/-- A failure of the import in a line of a file. -/
structure ImportFailure where
  cause : FailureCause
  file : Option Path
  line : UInt32
deriving DecidableEq

namespace ImportFailure

def message (f : ImportFailure) : String :=
  match f.file with
  | some file => file.toString ++ ":" ++ toString f.line ++ ": " ++ f.cause.message
  | none => "line " ++ toString f.line ++ ": " ++ f.cause.message

def causes (f : ImportFailure) : List String := f.cause.causes

def trace? (f : ImportFailure) : Option ProbeLog :=
  match f.cause with
  | .unresolved _ trace => some trace
  | _ => none

def status? (f : ImportFailure) : Option Nat :=
  match f.cause with
  | .fetch _ status _ => status
  | _ => none

end ImportFailure

def Reference.failure (r : Reference) (cause : FailureCause) : ImportFailure :=
  ⟨cause, r.file, r.line⟩

end ScriptImports
