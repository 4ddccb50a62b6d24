/-!
Why an operation on a file tree fails, and the words for it.
-/
namespace ScriptImports

inductive Fault where
  | notFound
  | exists
  | busy
  | notDirectory
  | isDirectory
  | nameTooLong
  | tooManyLinks
  /-- The path holds a NUL character, so no entry can have it. -/
  | nulInPath
  /-- The bytes of the file are not UTF-8 text. -/
  | notText
  | other (text : String)
deriving DecidableEq

namespace Fault

def numbered (text : String) (code : Nat) : String :=
  text ++ " (os error " ++ toString code ++ ")"

def message : Fault → String
  | .notFound => numbered "No such file or directory" 2
  | .busy => numbered "Device or resource busy" 16
  | .exists => numbered "File exists" 17
  | .notDirectory => numbered "Not a directory" 20
  | .isDirectory => numbered "Is a directory" 21
  | .nameTooLong => numbered "File name too long" 36
  | .tooManyLinks => numbered "Too many levels of symbolic links" 40
  | .nulInPath => "file name contained an unexpected NUL byte"
  | .notText => "stream did not contain valid UTF-8"
  | .other text => text

end Fault

end ScriptImports
