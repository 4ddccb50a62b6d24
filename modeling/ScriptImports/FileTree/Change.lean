import ScriptImports.FileTree.Read

/-!
Changes to a file tree: directories made along a path, files written, replaced and removed. A
change either fails and says why, or gives the new tree.
-/
namespace ScriptImports.FileTree

/-- Makes one directory in an existing one, under a name that is free. -/
def makeDirectory (t : FileTree) (p : Path) : Except Fault FileTree :=
  match t.locate p with
  | .error fault => .error fault
  | .ok (directory, name) =>
    if !isEntryName name then .error .exists
    else if maxNameBytes < byteCount name then .error .nameTooLong
    else if t.node? (directory ++ [name]) = none then .ok (t.put (directory ++ [name]) .directory)
    else .error .exists

/-- Makes the first of `paths`, after those that it is missing; each is the parent of the one
before. A directory that is already there is as good. The tree keeps what was made before a
failure. -/
def makeAll (t : FileTree) : List Path → FileTree × Except Fault Unit
  | [] => (t, .ok ())
  | p :: above =>
    match t.makeDirectory p with
    | .ok made => (made, .ok ())
    | .error .notFound =>
      match t.makeAll above with
      | (t', .error fault) => (t', .error fault)
      | (t', .ok ()) =>
        match t'.makeDirectory p with
        | .ok made => (made, .ok ())
        | .error fault => (t', if t'.isDirectory p then .ok () else .error fault)
    | .error fault => (t, if t.isDirectory p then .ok () else .error fault)

def makeDirectories (t : FileTree) (p : Path) : FileTree × Except Fault Unit :=
  t.makeAll p.ancestors

/-- A file that was made for a while. It is written at its place, and found by its path. -/
structure Temporary where
  path : Path
  place : Place
deriving DecidableEq

/-- The names that a temporary file may get, in the order in which they are tried. -/
def temporaryNames : List String :=
  (List.range 246).map fun n => String.ofList (List.replicate (n + 10) '~')

/-- Makes an empty file in a directory under the first name that is free there. -/
def makeFirst (t : FileTree) (directory : Path) : List String → Except Fault (FileTree × Temporary)
  | [] => .error .exists
  | name :: names =>
    match t.find false (directory.child name) with
    | .ok (.vacant place) => .ok (t.put place (.file .empty), ⟨directory.child name, place⟩)
    | .ok (.entry _ _) => t.makeFirst directory names
    | .error fault => .error fault

/-- Makes a temporary file in a directory. The empty path is the current directory. -/
def makeTemporary (t : FileTree) (directory : Path) : Except Fault (FileTree × Temporary) :=
  t.makeFirst directory temporaryNames

/-- Writes content to the open file at a place. -/
def fill (t : FileTree) (place : Place) (content : ByteArray) : FileTree × Except Fault Unit :=
  match t.breaks t.branch place content with
  | some (written, fault) => (t.put place (.file written), .error fault)
  | none => (t.put place (.file content), .ok ())

/-- Moves the file that a path leads to to another path. A file or a link that is there already is
replaced, and a link's target is not touched. -/
def moveFile (t : FileTree) (source target : Path) : Except Fault FileTree :=
  match t.find false source with
  | .error fault => .error fault
  | .ok (.vacant _) => .error .notFound
  | .ok (.entry place node) =>
    match t.locate target with
    | .error fault => .error fault
    | .ok (directory, name) =>
      if !isEntryName name then .error .busy
      else if maxNameBytes < byteCount name then .error .nameTooLong
      else if target.chars.getLast? = some (.char '/') then .error .notDirectory
      else if t.node? (directory ++ [name]) = some .directory then .error .isDirectory
      else .ok ((t.erase place).put (directory ++ [name]) node)

/-- Removes the file or the link that a path leads to, if it still leads to one. -/
def unlink (t : FileTree) (p : Path) : FileTree :=
  match t.find false p with
  | .ok (.entry _ .directory) | .ok (.vacant _) | .error _ => t
  | .ok (.entry place _) => t.erase place

/-- Puts a node where a path leads, with the directories above it. Content goes through a link at
the end of the path; a directory that stands there is left alone. -/
def write (t : FileTree) (p : Path) (node : Node) : FileTree :=
  let made := (p.parent?.map fun above => (t.makeDirectories above).1).getD t
  match node with
  | .directory => (made.makeDirectories p).1
  | .file content =>
    match made.find true p with
    | .ok (.entry _ .directory) => made
    | .ok (.entry place _) => made.put place (.file content)
    | .ok (.vacant place) => made.put place (.file content)
    | .error _ => made
  | .link target =>
    match made.find false p with
    | .ok (.vacant place) => made.put place (.link target)
    | _ => made

/-- Removes the entry a path names, a directory with all that is in it; a link's target stays. -/
def remove (t : FileTree) (p : Path) : Option FileTree :=
  match t.find false p with
  | .ok (.entry place _) =>
    some { t with branch := t.branch.prune place }
  | _ => none

end ScriptImports.FileTree
