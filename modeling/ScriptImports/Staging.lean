import ScriptImports.FileTree.Change

/-!
The staging area: fetched native modules are written to files named after their URLs, since only
files can be loaded. A body is written to a temporary file beside its target and moved there when it
is complete, so that the target is never seen half written. Staging is given twice: `stage` does it
at one go, and `StagedWrite.step` does one of its five actions at a time, so that several can be under
way at once, and a staging can go on when nobody waits for it any more.
-/
namespace ScriptImports

structure Staging where
  directory : Path
  /-- The staged URLs in ascending order, each with its file. -/
  entries : List (String × Path)

namespace Staging

def isPlain (c : Char) : Bool := c.isAlphanum || c == '_' || c == '.'

/-- The URL with an underscore for every character but ASCII letters, digits, `_` and `.`. -/
def flatten (url : String) : String :=
  String.ofList (url.toList.map fun c => if isPlain c then c else '_')

def target (s : Staging) (url : String) : Path := s.directory.child (flatten url)

def get? (s : Staging) (url : String) : Option Path := s.entries.lookup url

def insertEntry (url : String) (path : Path) : List (String × Path) → List (String × Path)
  | [] => [(url, path)]
  | e :: es =>
    if url = e.1 then (url, path) :: es
    else if url < e.1 then (url, path) :: e :: es
    else e :: insertEntry url path es

theorem lookup_insertEntry (added url : String) (path : Path) (entries : List (String × Path)) :
    (insertEntry added path entries).lookup url =
      if url = added then some path else entries.lookup url := by
  induction entries with
  | nil => by_cases h : url = added <;> grind [insertEntry]
  | cons e es ih =>
    simp only [insertEntry]
    split
    · by_cases h : url = added <;> grind
    · split
      · by_cases h : url = added <;> grind
      · by_cases h : url = e.1 <;> grind

def record (s : Staging) (url : String) : Staging :=
  { s with entries := insertEntry url (s.target url) s.entries }

theorem get?_record (s : Staging) (added url : String) :
    (s.record added).get? url = if url = added then some (s.target added) else s.get? url :=
  lookup_insertEntry added url (s.target added) s.entries

/-- Writes a body to a temporary file, which is removed if the writing breaks off. -/
def write (tree : FileTree) (body : ByteArray) (temporary : FileTree.Temporary) :
    FileTree × Except Fault Unit :=
  match tree.fill temporary.place body with
  | (filled, .ok ()) => (filled, .ok ())
  | (filled, .error fault) => (filled.unlink temporary.path, .error fault)

/-- Moves a complete temporary file to its target; one that cannot be moved is removed. -/
def install (s : Staging) (tree : FileTree) (url : String) (temporary : FileTree.Temporary) :
    FileTree × Except Fault Unit :=
  match tree.moveFile temporary.path (s.target url) with
  | .ok moved => (moved, .ok ())
  | .error fault => (tree.unlink temporary.path, .error fault)

section

variable {s : Staging} {tree tree' : FileTree} {url : String} {body : ByteArray}
  {temporary : FileTree.Temporary} {fault : Fault}

theorem write_filled (h : tree.fill temporary.place body = (tree', .ok ())) :
    write tree body temporary = (tree', .ok ()) := by
  rw [write, h]

theorem write_broken (h : tree.fill temporary.place body = (tree', .error fault)) :
    write tree body temporary = (tree'.unlink temporary.path, .error fault) := by
  rw [write, h]

theorem install_moved (h : tree.moveFile temporary.path (s.target url) = .ok tree') :
    s.install tree url temporary = (tree', .ok ()) := by
  rw [install, h]

theorem install_unmoved (h : tree.moveFile temporary.path (s.target url) = .error fault) :
    s.install tree url temporary = (tree.unlink temporary.path, .error fault) := by
  rw [install, h]

end

/-- Stages a body and gives its file. After a failure nothing is noted. -/
def stage (s : Staging) (tree : FileTree) (url : String) (body : ByteArray) :
    Staging × FileTree × Except Fault Path :=
  match tree.makeDirectories s.directory with
  | (tree, .error fault) => (s, tree, .error fault)
  | (tree, .ok ()) =>
    match tree.makeTemporary s.directory with
    | .error fault => (s, tree, .error fault)
    | .ok (tree, temporary) =>
      match write tree body temporary with
      | (tree, .error fault) => (s, tree, .error fault)
      | (tree, .ok ()) =>
        match s.install tree url temporary with
        | (tree, .error fault) => (s, tree, .error fault)
        | (tree, .ok ()) => (s.record url, tree, .ok (s.target url))

end Staging

inductive StagePhase where
  | begun
  | directoryMade
  | opened (temporary : FileTree.Temporary)
  | written (temporary : FileTree.Temporary)
  | moved
deriving DecidableEq

structure StagedWrite where
  url : String
  body : ByteArray
  phase : StagePhase
deriving DecidableEq

namespace StagedWrite

inductive Progress where
  | next (write : StagedWrite)
  | ended (result : Except Fault Path)

def Progress.write? : Progress → Option StagedWrite
  | .next write => some write
  | .ended _ => none

def step (s : Staging) (tree : FileTree) (w : StagedWrite) : Staging × FileTree × Progress :=
  match w.phase with
  | .begun =>
    match tree.makeDirectories s.directory with
    | (tree, .error fault) => (s, tree, .ended (.error fault))
    | (tree, .ok ()) => (s, tree, .next { w with phase := .directoryMade })
  | .directoryMade =>
    match tree.makeTemporary s.directory with
    | .error fault => (s, tree, .ended (.error fault))
    | .ok (tree, temporary) => (s, tree, .next { w with phase := .opened temporary })
  | .opened temporary =>
    match Staging.write tree w.body temporary with
    | (tree, .error fault) => (s, tree, .ended (.error fault))
    | (tree, .ok ()) => (s, tree, .next { w with phase := .written temporary })
  | .written temporary =>
    match s.install tree w.url temporary with
    | (tree, .error fault) => (s, tree, .ended (.error fault))
    | (tree, .ok ()) => (s, tree, .next { w with phase := .moved })
  | .moved => (s.record w.url, tree, .ended (.ok (s.target w.url)))

/-- One more action of a staging that nobody waits for, and the staging if it goes on after that. What
is under way is neither broken off nor noted, and behind the directories nothing new is begun. -/
def goOn (s : Staging) (tree : FileTree) (w : StagedWrite) : FileTree × Option StagedWrite :=
  match w.phase with
  | .begun => ((tree.makeDirectories s.directory).1, none)
  | .directoryMade | .opened _ | .written _ =>
    ((w.step s tree).2.1, (w.step s tree).2.2.write?)
  | .moved => (tree, none)

end StagedWrite

end ScriptImports
