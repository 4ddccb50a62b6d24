import ScriptImports.Path

/-!
The entries of a file tree, held by place, the list of names from the root. A branch keeps what
stands at one place and the branches below it, so that a walk finds each next entry from the
directory it has come to. It is seen through `get?` alone: a change at one place leaves what stands
at every other place as it was, whether or not there are directories on the way.
-/
namespace ScriptImports

/-- The names from the root down to an entry. -/
abbrev Place := List Segment

/-- Contents are compared byte by byte, in whatever library they are. -/
instance contentDecidableEq : DecidableEq ByteArray := ByteArray.instDecidableEq

inductive Node where
  | file (content : ByteArray)
  | link (target : Path)
  | directory
deriving DecidableEq

structure Branch where
  node : Option Node
  children : List (Segment × Branch)

namespace Branch

def empty : Branch := ⟨none, []⟩

def child (b : Branch) (name : Segment) : Branch := (b.children.lookup name).getD empty

def setChild (b : Branch) (name : Segment) (below : Branch) : Branch :=
  ⟨b.node, (name, below) :: b.children.filter fun e => e.1 != name⟩

theorem child_setChild (b : Branch) (changed name : Segment) (below : Branch) :
    (b.setChild changed below).child name = if name = changed then below else b.child name := by
  have look (children : List (Segment × Branch)) (h : name ≠ changed) :
      (children.filter fun e => e.1 != changed).lookup name = children.lookup name := by
    induction children with
    | nil => rfl
    | cons e es ih => by_cases same : e.1 = changed <;> grind
  by_cases h : name = changed
  · simp [child, setChild, h]
  · have differ : (name == changed) = false := by simpa using h
    simp [child, setChild, List.lookup_cons, h, differ, look _ h]

def down (b : Branch) : Place → Branch
  | [] => b
  | name :: below => (b.child name).down below

theorem down_concat (b : Branch) (place : Place) (name : Segment) :
    b.down (place ++ [name]) = (b.down place).child name := by
  induction place generalizing b with
  | nil => rfl
  | cons s below ih => exact ih (b.child s)

def get? (b : Branch) (place : Place) : Option Node := (b.down place).node

/-- Puts an entry at a place, or with `none` takes it away. -/
def set (b : Branch) (node : Option Node) : Place → Branch
  | [] => { b with node := node }
  | name :: below => b.setChild name ((b.child name).set node below)

theorem get?_set (b : Branch) (node : Option Node) (changed place : Place) :
    (b.set node changed).get? place = if place = changed then node else b.get? place := by
  induction changed generalizing b place with
  | nil => cases place <;> simp [get?, set, down, child]
  | cons s below ih =>
    cases place with
    | nil => simp [get?, set, down, setChild]
    | cons r rest =>
      by_cases h : r = s
      · simpa [get?, set, down, child_setChild, h] using ih (b.child s) rest
      · simp [get?, set, down, child_setChild, h]

/-- Takes away a place with all that is below it. -/
def prune (b : Branch) : Place → Branch
  | [] => empty
  | name :: below => b.setChild name ((b.child name).prune below)

end Branch

/-- A way down from a root: the names and the branches they lead to, innermost first. -/
abbrev Trail := List (Segment × Branch)

namespace Trail

def place (trail : Trail) : Place := (trail.map Prod.fst).reverse

def branch (root : Branch) : Trail → Branch
  | [] => root
  | step :: _ => step.2

def step (root : Branch) (trail : Trail) (name : Segment) : Trail :=
  (name, (trail.branch root).child name) :: trail

def ofPlace (root : Branch) (place : Place) : Trail := place.foldl (step root) []

theorem ofPlace_concat (root : Branch) (place : Place) (name : Segment) :
    ofPlace root (place ++ [name]) = step root (ofPlace root place) name := by
  simp [ofPlace]

theorem branch_ofPlace (root : Branch) (place : Place) :
    (ofPlace root place).branch root = root.down place := by
  rcases List.eq_nil_or_concat place with rfl | ⟨above, name, rfl⟩
  · rfl
  · rw [List.concat_eq_append, ofPlace_concat, Branch.down_concat]
    exact congrArg (Branch.child · name) (branch_ofPlace root above)
termination_by place.length

theorem place_ofPlace (root : Branch) (place : Place) : (ofPlace root place).place = place := by
  rcases List.eq_nil_or_concat place with rfl | ⟨above, name, rfl⟩
  · rfl
  · have ih := place_ofPlace root above
    simp_all [ofPlace_concat, step, Trail.place]
termination_by place.length

theorem tail_ofPlace (root : Branch) (place : Place) :
    (ofPlace root place).tail = ofPlace root place.dropLast := by
  rcases List.eq_nil_or_concat place with rfl | ⟨above, name, rfl⟩
  · rfl
  · rw [List.concat_eq_append, ofPlace_concat, List.dropLast_concat]
    rfl

end Trail

end ScriptImports
