import ScriptImports.FileTree.Basic

/-!
Questions to a file tree. All of them go through links, and none changes the tree.
-/
namespace ScriptImports.FileTree

/-- What the path leads to, which has to exist. -/
def lookAt (t : FileTree) (p : Path) : Except Fault Node :=
  match t.find true p with
  | .ok (.entry _ node) => .ok node
  | .ok (.vacant _) => .error .notFound
  | .error fault => .error fault

def isFile (t : FileTree) (p : Path) : Bool :=
  match t.lookAt p with
  | .ok (.file _) => true
  | _ => false

def isDirectory (t : FileTree) (p : Path) : Bool :=
  match t.lookAt p with
  | .ok .directory => true
  | _ => false

def exists? (t : FileTree) (p : Path) : Bool := (t.lookAt p).isOk

def readBytes (t : FileTree) (p : Path) : Except Fault ByteArray :=
  match t.lookAt p with
  | .ok (.file content) => .ok content
  | .ok _ => .error .isDirectory
  | .error fault => .error fault

def readText (t : FileTree) (p : Path) : Except Fault String :=
  match t.readBytes p with
  | .ok content =>
    match String.fromUTF8? content with
    | some text => .ok text
    | none => .error .notText
  | .error fault => .error fault

/-- The rooted path without links, `.` and `..` that leads to the same entry. -/
def canonical (t : FileTree) (p : Path) : Except Fault Path :=
  match t.find true p with
  | .ok (.entry place _) => .ok (Path.ofSegments true place)
  | .ok (.vacant _) => .error .notFound
  | .error fault => .error fault

def list (t : FileTree) (p : Path) : Except Fault (List String) :=
  match t.find true p with
  | .ok (.entry place .directory) =>
    .ok (((t.branch.down place).children.filterMap fun e =>
      e.2.node.map fun _ => PathText.shown e.1).mergeSort)
  | .ok (.entry _ _) => .error .notDirectory
  | .ok (.vacant _) => .error .notFound
  | .error fault => .error fault

end ScriptImports.FileTree
