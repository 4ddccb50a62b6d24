import ScriptImports.FileTree.Branch
import ScriptImports.FileTree.Fault

/-!
A tree of files, directories and symbolic links as a value, and the walk that finds what a path
leads to. `advance_nil` and `advance_cons` say how a walk goes on in terms of what stands at a
place.
-/
namespace ScriptImports

structure FileTree where
  branch : Branch
  /-- The directory that unrooted paths start from. -/
  current : Place
  /-- Where writing content to the open file at a place breaks off, in the tree as it then is: what
  has been written so far, and why it is not more. -/
  breaks : Branch → Place → ByteArray → Option (ByteArray × Fault)

namespace FileTree

/-- A tree with nothing in it, in which all writing comes to its end. -/
def empty : FileTree := ⟨.empty, [], fun _ _ _ => none⟩

/-- What stands at a place. The root is always a directory. -/
def node? (t : FileTree) (place : Place) : Option Node :=
  if place = [] then some .directory else t.branch.get? place

def erase (t : FileTree) (place : Place) : FileTree :=
  { t with branch := t.branch.set none place }

def put (t : FileTree) (place : Place) (node : Node) : FileTree :=
  { t with branch := t.branch.set (some node) place }

@[simp] theorem node?_root (t : FileTree) : t.node? [] = some .directory := by
  simp [node?]

theorem node?_erase (t : FileTree) (gone place : Place) (h : place ≠ []) :
    (t.erase gone).node? place = if place = gone then none else t.node? place := by
  simp [node?, erase, h, Branch.get?_set]

theorem node?_put (t : FileTree) (changed place : Place) (node : Node) (h : place ≠ []) :
    (t.put changed node).node? place = if place = changed then some node else t.node? place := by
  simp [node?, put, h, Branch.get?_set]

theorem node?_erase_self (t : FileTree) {place : Place} (h : place ≠ []) :
    (t.erase place).node? place = none := by
  rw [node?_erase t place place h, if_pos rfl]

theorem node?_put_self (t : FileTree) (node : Node) {place : Place} (h : place ≠ []) :
    (t.put place node).node? place = some node := by
  rw [node?_put t place place node h, if_pos rfl]

theorem node?_erase_cases (t : FileTree) (gone place : Place) :
    (t.erase gone).node? place = t.node? place ∨
      place = gone ∧ (t.erase gone).node? place = none := by
  by_cases root : place = []
  · exact Or.inl (by rw [root, node?_root, node?_root])
  rw [node?_erase t gone place root]
  split
  · next same => exact Or.inr ⟨same, rfl⟩
  · exact Or.inl rfl

theorem node?_put_cases (t : FileTree) (changed place : Place) (node : Node) :
    (t.put changed node).node? place = t.node? place ∨
      place = changed ∧ (t.put changed node).node? place = some node := by
  by_cases root : place = []
  · exact Or.inl (by rw [root, node?_root, node?_root])
  rw [node?_put t changed place node root]
  split
  · next same => exact Or.inr ⟨same, rfl⟩
  · exact Or.inl rfl

theorem node?_erase_of_ne (t : FileTree) {gone place : Place} (h : place ≠ gone) :
    (t.erase gone).node? place = t.node? place :=
  (t.node?_erase_cases gone place).resolve_right fun same => h same.1

theorem node?_put_of_ne (t : FileTree) (node : Node) {changed place : Place}
    (h : place ≠ changed) : (t.put changed node).node? place = t.node? place :=
  (t.node?_put_cases changed place node).resolve_right fun same => h same.1

/-- Where a walk ends: at an entry, or at a free name in an existing directory. -/
inductive Found where
  | entry (place : Place) (node : Node)
  | vacant (place : Place)
deriving DecidableEq

/-- How far a walk comes before it has to go through a link. -/
inductive Progress where
  | ended (found : Found)
  /-- The link stands in `directory`; `rest` is to be walked from where it points. -/
  | link (directory : Place) (target : Path) (rest : List Segment)

/-- The longest name of an entry, in bytes. -/
def maxNameBytes : Nat := 255

/-- A path has to stay below this many bytes. -/
def maxPathBytes : Nat := 4096

/-- The number of links that one walk may go through. -/
def maxLinks : Nat := 40

def byteCount (t : PathText) : Nat := (t.map PathChar.size).foldr (· + ·) 0

/-- Walks down from where a trail ends. A link at the end is gone through only if `follow` says
so. -/
def descend (t : FileTree) (follow : Bool) (trail : Trail) :
    List Segment → Except Fault Progress
  | [] => .ok (.ended (.entry trail.place .directory))
  | s :: rest =>
    if s = Segment.here then t.descend follow trail rest
    else if s = Segment.up then t.descend follow trail.tail rest
    else if maxNameBytes < byteCount s then .error .nameTooLong
    else
      let next := trail.step t.branch s
      match (next.branch t.branch).node with
      | none => if rest = [] then .ok (.ended (.vacant next.place)) else .error .notFound
      | some .directory => t.descend follow next rest
      | some (.file content) =>
        if rest = [] then .ok (.ended (.entry next.place (.file content)))
        else .error .notDirectory
      | some (.link target) =>
        if rest = [] ∧ follow = false then .ok (.ended (.entry next.place (.link target)))
        else .ok (.link trail.place target rest)

def advance (t : FileTree) (follow : Bool) (here : Place) (steps : List Segment) :
    Except Fault Progress :=
  t.descend follow (.ofPlace t.branch here) steps

theorem advance_nil (t : FileTree) (follow : Bool) (here : Place) :
    t.advance follow here [] = .ok (.ended (.entry here .directory)) := by
  simp [advance, descend, Trail.place_ofPlace]

theorem advance_cons (t : FileTree) (follow : Bool) (here : Place) (s : Segment)
    (rest : List Segment) :
    t.advance follow here (s :: rest) =
      if s = Segment.here then t.advance follow here rest
      else if s = Segment.up then t.advance follow here.dropLast rest
      else if maxNameBytes < byteCount s then .error .nameTooLong
      else
        match t.node? (here ++ [s]) with
        | none => if rest = [] then .ok (.ended (.vacant (here ++ [s]))) else .error .notFound
        | some .directory => t.advance follow (here ++ [s]) rest
        | some (.file content) =>
          if rest = [] then .ok (.ended (.entry (here ++ [s]) (.file content)))
          else .error .notDirectory
        | some (.link target) =>
          if rest = [] ∧ follow = false then .ok (.ended (.entry (here ++ [s]) (.link target)))
          else .ok (.link here target rest) := by
  have node : t.node? (here ++ [s]) =
      ((Trail.ofPlace t.branch (here ++ [s])).branch t.branch).node := by
    simp [node?, Branch.get?, Trail.branch_ofPlace]
  simp only [advance, descend, ← Trail.ofPlace_concat, Trail.tail_ofPlace, Trail.place_ofPlace, node]

end FileTree

/-- The segments a walk goes through: a slash at the end asks for a directory, as `.` does. -/
def Path.steps (p : Path) : List Segment :=
  p.pieces.filter (· != []) ++ if p.chars.getLast? = some (.char '/') then [Segment.here] else []

namespace FileTree

def start (current : Place) (p : Path) : Place := if p.isRooted then [] else current

def walk (t : FileTree) (follow : Bool) (links : Nat) (here : Place) (steps : List Segment) :
    Except Fault Found :=
  match t.advance follow here steps with
  | .error fault => .error fault
  | .ok (.ended found) => .ok found
  | .ok (.link directory target rest) =>
    match links with
    | 0 => .error .tooManyLinks
    | links + 1 => t.walk follow links (start directory target) (target.steps ++ rest)

/-- The paths that no walk is made for. -/
def refuse? (p : Path) : Option Fault :=
  if .char (Char.ofNat 0) ∈ p.chars then some .nulInPath
  else if p.chars = [] then some .notFound
  else if maxPathBytes ≤ byteCount p.chars then some .nameTooLong
  else none

def find (t : FileTree) (follow : Bool) (p : Path) : Except Fault Found :=
  match refuse? p with
  | some fault => .error fault
  | none => t.walk follow maxLinks (start t.current p) p.steps

/-- The directory and the name in it that a path gives for an entry to be made or replaced there.
The name is `.` or `..` where the path ends so, and `.` for the root. -/
def locate (t : FileTree) (p : Path) : Except Fault (Place × Segment) :=
  match refuse? p with
  | some fault => .error fault
  | none =>
    let names := p.pieces.filter (· != [])
    match t.walk true maxLinks (start t.current p) (names.dropLast ++ [Segment.here]) with
    | .ok (.entry directory _) => .ok (directory, names.getLast?.getD Segment.here)
    | .ok (.vacant _) => .error .notFound
    | .error fault => .error fault

/-- Whether a last segment names an entry rather than the way to a directory. -/
def isEntryName (s : Segment) : Bool := s != Segment.here && s != Segment.up

end FileTree

end ScriptImports
