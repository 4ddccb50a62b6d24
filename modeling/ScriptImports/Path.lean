import ScriptImports.PathText

/-!
Paths of a file tree as they are written, and the forms computed from the text alone: joining,
anchoring at a base, and the normal form without `.` and `..` segments. A path keeps every
character it was written with; `Path.key` is what two spellings of one path have in common.
-/
namespace ScriptImports

/-- What stands between two slashes of a path. -/
abbrev Segment := PathText

def Segment.here : Segment := [.char '.']

def Segment.up : Segment := [.char '.', .char '.']

structure Path where
  chars : PathText
deriving DecidableEq, Inhabited

namespace Path

def ofString (s : String) : Path := ⟨PathText.ofString s⟩

/-- The path as it is printed. Paths that are not UTF-8 can look alike. -/
def toString (p : Path) : String := p.chars.shown

instance : ToString Path := ⟨Path.toString⟩

def empty : Path := ⟨[]⟩

def root : Path := ⟨[.char '/']⟩

def isRooted (p : Path) : Bool := p.chars.head? == some (.char '/')

/-- The text between slashes, empty pieces included. -/
def pieces (p : Path) : List Segment := p.chars.splitOn (.char '/')

/-- The pieces that name something: neither empty nor `.`. -/
def segments (p : Path) : List Segment :=
  p.pieces.filter fun s => s != [] && s != Segment.here

/-- Whether the path starts with the segment `.`, which marks it as written from the current
directory. -/
def startsHere (p : Path) : Bool := p.pieces.head? == some Segment.here

/-- A path up to repeated and trailing slashes and inner `.` segments. -/
structure Key where
  rooted : Bool
  here : Bool
  segments : List Segment
deriving DecidableEq

def key (p : Path) : Key := ⟨p.isRooted, p.startsHere, p.segments⟩

def same (p q : Path) : Bool := p.key == q.key

def ofSegments (rooted : Bool) (segments : List Segment) : Path :=
  ⟨(if rooted then [.char '/'] else []) ++ [.char '/'].intercalate segments⟩

/-- `p` read from the directory `base`; a rooted path ignores the base. -/
def join (base p : Path) : Path :=
  if p.isRooted then p
  else if base.chars = [] ∨ base.chars.getLast? = some (.char '/') then ⟨base.chars ++ p.chars⟩
  else ⟨base.chars ++ .char '/' :: p.chars⟩

/-- `base / name` for a name that is no path yet. -/
def child (base : Path) (name : String) : Path := base.join (ofString name)

/-- The path without its last segment; a path without segments has none, except that `.` has the
empty path. -/
def parent? (p : Path) : Option Path :=
  if p.segments = [] then if p.startsHere then some empty else none
  else some (ofSegments p.isRooted p.segments.dropLast)

/-- The last segment, unless it is `..`. -/
def fileName? (p : Path) : Option Segment :=
  p.segments.getLast?.filter (· != Segment.up)

/-- One segment taken on a stack whose top is the innermost directory: `..` drops the top, stays at
the root, and piles up where an unrooted path has nothing left to drop. -/
def push (rooted : Bool) : List Segment → Segment → List Segment
  | [], s => if s = Segment.up then (if rooted then [] else [Segment.up]) else [s]
  | top :: rest, s =>
    if s = Segment.up then (if top = Segment.up then Segment.up :: top :: rest else rest)
    else s :: top :: rest

/-- The segments that are left when each `..` has taken the one before it. -/
def settled (p : Path) : List Segment :=
  (p.segments.foldl (push p.isRooted) []).reverse

/-- The same path without `.` segments, without a `..` that follows a name, and with single
slashes. -/
def normalize (p : Path) : Path := ofSegments p.isRooted p.settled

def anchor (p base : Path) : Path :=
  if p.isRooted then p.normalize else (base.join p).normalize

/-- The directory that holds `file`, which is read from `base`; a file without a parent stands for
itself. -/
def folder (file base : Path) : Path :=
  let anchored := file.anchor base
  anchored.parent?.getD anchored

/-- `p` as it is written, and then the paths above it, innermost first; neither the root nor the
empty path is among those. -/
def ancestors (p : Path) : List Path :=
  if p = empty then []
  else
    p :: (List.range (p.segments.length - 1)).reverse.map fun n =>
      ofSegments p.isRooted (p.segments.take (n + 1))

end Path

end ScriptImports
