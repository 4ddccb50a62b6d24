import ScriptImports.FileTree.Change

/-!
How a walk depends on the tree that it goes through. It depends on the places that it asks for and
on no others; an entry that it leads to stays where new directories are made; and a file in the way
of a walk to a directory can only stop it. Walks here go through links at their ends too.
-/
namespace ScriptImports.FileTree

/-- What one segment of a walk leads to from a directory. -/
inductive Stride where
  | onto (place : Place)
  | barred
  | vacant
  | file (content : ByteArray)
  | link (target : Path)

def Stride.at (place : Place) : Option Node → Stride
  | none => .vacant
  | some .directory => .onto place
  | some (.file content) => .file content
  | some (.link target) => .link target

def stride (t : FileTree) (here : Place) (s : Segment) : Stride :=
  if s = Segment.here then .onto here
  else if s = Segment.up then .onto here.dropLast
  else if maxNameBytes < byteCount s then .barred
  else .at (here ++ [s]) (t.node? (here ++ [s]))

/-- One segment of a walk, of which only a link at the end depends on `follow`. -/
theorem advance_follow (t : FileTree) (follow : Bool) (here : Place) (s : Segment)
    (rest : List Segment) :
    t.advance follow here (s :: rest) =
      match t.stride here s with
      | .onto place => t.advance follow place rest
      | .barred => .error .nameTooLong
      | .vacant => if rest = [] then .ok (.ended (.vacant (here ++ [s]))) else .error .notFound
      | .file content =>
        if rest = [] then .ok (.ended (.entry (here ++ [s]) (.file content)))
        else .error .notDirectory
      | .link target =>
        if rest = [] ∧ follow = false then .ok (.ended (.entry (here ++ [s]) (.link target)))
        else .ok (.link here target rest) := by
  rw [advance_cons]
  by_cases dot : s = Segment.here
  · simp only [stride, if_pos dot]
  by_cases up : s = Segment.up
  · simp only [stride, if_neg dot, if_pos up]
  by_cases long : maxNameBytes < byteCount s
  · simp only [stride, if_neg dot, if_neg up, if_pos long]
  simp only [stride, if_neg dot, if_neg up, if_neg long]
  cases t.node? (here ++ [s]) with
  | none => rfl
  | some node => cases node <;> rfl

theorem advance_stride (t : FileTree) (here : Place) (s : Segment) (rest : List Segment) :
    t.advance true here (s :: rest) =
      match t.stride here s with
      | .onto place => t.advance true place rest
      | .barred => .error .nameTooLong
      | .vacant => if rest = [] then .ok (.ended (.vacant (here ++ [s]))) else .error .notFound
      | .file content =>
        if rest = [] then .ok (.ended (.entry (here ++ [s]) (.file content)))
        else .error .notDirectory
      | .link target => .ok (.link here target rest) := by
  rw [advance_follow]
  cases t.stride here s with
  | link target => exact if_neg (by simp)
  | onto _ | barred | vacant | file _ => rfl

/-- The segment `.` stays where it is, and a longer walk goes on from there. -/
@[simp] theorem stride_here (t : FileTree) (here : Place) :
    t.stride here Segment.here = .onto here := by
  simp [stride]

/-- Strides in two trees are related as the nodes that they ask for, if any. -/
theorem stride_related {R : Stride → Stride → Prop} (t u : FileTree) (here : Place) (s : Segment)
    (refl : ∀ r, R r r)
    (nodes : R (.at (here ++ [s]) (t.node? (here ++ [s]))) (.at (here ++ [s]) (u.node? (here ++ [s])))) :
    R (t.stride here s) (u.stride here s) := by
  rw [stride, stride]
  split
  · exact refl _
  split
  · exact refl _
  split
  · exact refl _
  · exact nodes

section

variable {t : FileTree} {follow : Bool} {links : Nat} {here directory : Place}
  {steps rest : List Segment} {target : Path}

theorem walk_ended {found : Found} (h : t.advance follow here steps = .ok (.ended found)) :
    t.walk follow links here steps = .ok found := by
  rw [walk.eq_def, h]

theorem walk_error {fault : Fault} (h : t.advance follow here steps = .error fault) :
    t.walk follow links here steps = .error fault := by
  rw [walk.eq_def, h]

theorem walk_link_zero (h : t.advance follow here steps = .ok (.link directory target rest)) :
    t.walk follow 0 here steps = .error .tooManyLinks := by
  rw [walk.eq_def, h]

theorem walk_link_succ (h : t.advance follow here steps = .ok (.link directory target rest)) :
    t.walk follow (links + 1) here steps =
      t.walk follow links (start directory target) (target.steps ++ rest) := by
  rw [walk.eq_def, h]

end

/-! Walks in two trees that agree where the first one is asked. -/

/-- The places that a walk down asks for. -/
def passed (t : FileTree) (here : Place) : List Segment → List Place
  | [] => []
  | s :: rest =>
    (here ++ [s]) ::
      match t.stride here s with
      | .onto place => t.passed place rest
      | _ => []

/-- The places that a walk through at most `links` links asks for. -/
def walked (t : FileTree) (links : Nat) (here : Place) (steps : List Segment) : List Place :=
  t.passed here steps ++
    match t.advance true here steps with
    | .ok (.link directory target rest) =>
      match links with
      | 0 => []
      | links + 1 => t.walked links (start directory target) (target.steps ++ rest)
    | _ => []

/-- The places that decide what a path leads to. -/
def consulted (t : FileTree) (p : Path) : List Place :=
  t.walked maxLinks (start t.current p) p.steps

theorem advance_congr {t u : FileTree} (here : Place) (steps : List Segment)
    (same : ∀ q ∈ t.passed here steps, u.node? q = t.node? q) :
    u.advance true here steps = t.advance true here steps := by
  induction steps generalizing here with
  | nil => rw [advance_nil, advance_nil]
  | cons s rest ih =>
      rw [passed] at same
      have stride : t.stride here s = u.stride here s := by
        apply stride_related t u here s fun _ => rfl
        rw [same (here ++ [s]) List.mem_cons_self]
      rw [advance_stride, advance_stride, ← stride]
      cases h : t.stride here s with
      | onto place =>
          rw [h] at same
          exact ih place fun q hq => same q (List.mem_cons_of_mem _ hq)
      | barred | vacant | file _ | link _ => rfl

theorem walk_congr {t u : FileTree} (links : Nat) (here : Place) (steps : List Segment)
    (same : ∀ q ∈ t.walked links here steps, u.node? q = t.node? q) :
    u.walk true links here steps = t.walk true links here steps := by
  induction links generalizing here steps with
  | zero =>
      rw [walked.eq_def] at same
      have down := advance_congr here steps fun q hq => same q (List.mem_append_left _ hq)
      rw [walk.eq_def, walk.eq_def, down]
  | succ links ih =>
      rw [walked.eq_def] at same
      have down := advance_congr here steps fun q hq => same q (List.mem_append_left _ hq)
      cases h : t.advance true here steps with
      | error fault => rw [walk_error h, walk_error (down.trans h)]
      | ok progress =>
          cases progress with
          | ended found => rw [walk_ended h, walk_ended (down.trans h)]
          | link directory target rest =>
              rw [walk_link_succ h, walk_link_succ (down.trans h)]
              rw [h] at same
              exact ih _ _ fun q hq => same q (List.mem_append_right _ hq)

theorem find_congr {t u : FileTree} (current : u.current = t.current) (p : Path)
    (same : ∀ q ∈ t.consulted p, u.node? q = t.node? q) : u.find true p = t.find true p := by
  rw [find, find, current]
  cases refuse? p with
  | some fault => rfl
  | none => exact walk_congr _ _ _ same

/-! Walks in a tree to which directories are added. -/

/-- `u` has what `t` has, and directories where `t` has nothing. -/
structure Grows (t u : FileTree) : Prop where
  current : u.current = t.current
  node (q : Place) : u.node? q = t.node? q ∨ t.node? q = none ∧ u.node? q = some .directory

namespace Grows

variable {t u v : FileTree}

theorem refl (t : FileTree) : Grows t t := ⟨rfl, fun _ => Or.inl rfl⟩

theorem trans (first : Grows t u) (second : Grows u v) : Grows t v := by
  refine ⟨second.current.trans first.current, fun q => ?_⟩
  rcases second.node q with same | ⟨nothing, made⟩
  · rw [same]
    exact first.node q
  · rcases first.node q with same | ⟨nothing', _⟩
    · exact Or.inr ⟨same ▸ nothing, made⟩
    · exact Or.inr ⟨nothing', made⟩

theorem link (grows : Grows t u) {q : Place} {target : Path}
    (h : u.node? q = some (.link target)) : t.node? q = some (.link target) := by
  rcases grows.node q with same | ⟨_, made⟩
  · rw [← same, h]
  · rw [made] at h
    cases h

theorem put_directory {t : FileTree} {q : Place} (nothing : t.node? q = none) :
    Grows t (t.put q .directory) := by
  refine ⟨rfl, fun r => ?_⟩
  cases t.node?_put_cases q r .directory with
  | inl same => exact Or.inl same
  | inr made =>
      obtain ⟨rfl, made⟩ := made
      exact Or.inr ⟨nothing, made⟩

theorem advance (grows : Grows t u) {here : Place} {steps : List Segment} {progress : Progress}
    (h : t.advance true here steps = .ok progress)
    (stands : ∀ place, progress ≠ .ended (.vacant place)) :
    u.advance true here steps = .ok progress := by
  induction steps generalizing here with
  | nil => rw [← h, advance_nil, advance_nil]
  | cons s rest ih =>
      have stride : u.stride here s = t.stride here s ∨ t.stride here s = .vacant := by
        apply stride_related (R := fun r r' => r' = r ∨ r = .vacant) t u here s fun _ => Or.inl rfl
        rcases grows.node (here ++ [s]) with same | ⟨nothing, _⟩
        · exact Or.inl (by rw [same])
        · exact Or.inr (by rw [nothing, Stride.at])
      rw [advance_stride] at h ⊢
      rcases stride with same | vacant
      · rw [same]
        cases hs : t.stride here s with
        | onto place =>
            rw [hs] at h
            exact ih h
        | barred | vacant | file _ | link _ =>
            rw [hs] at h
            exact h
      · rw [vacant] at h
        dsimp only at h
        split at h
        · cases h
          exact absurd rfl (stands _)
        · cases h

theorem walk (grows : Grows t u) {links : Nat} {here place : Place} {steps : List Segment}
    {node : Node} (h : t.walk true links here steps = .ok (.entry place node)) :
    u.walk true links here steps = .ok (.entry place node) := by
  induction links generalizing here steps with
  | zero =>
      cases down : t.advance true here steps with
      | error fault => rw [walk_error down] at h; cases h
      | ok progress =>
          cases progress with
          | ended found =>
              rw [walk_ended down] at h
              cases h
              exact walk_ended (grows.advance down nofun)
          | link directory target rest => rw [walk_link_zero down] at h; cases h
  | succ links ih =>
      cases down : t.advance true here steps with
      | error fault => rw [walk_error down] at h; cases h
      | ok progress =>
          cases progress with
          | ended found =>
              rw [walk_ended down] at h
              cases h
              exact walk_ended (grows.advance down nofun)
          | link directory target rest =>
              rw [walk_link_succ down] at h
              rw [walk_link_succ (grows.advance down nofun)]
              exact ih h

theorem find (grows : Grows t u) {p : Path} {place : Place} {node : Node}
    (h : t.find true p = .ok (.entry place node)) : u.find true p = .ok (.entry place node) := by
  rw [FileTree.find] at h ⊢
  rw [grows.current]
  cases refused : refuse? p with
  | some fault => rw [refused] at h; cases h
  | none =>
      rw [refused] at h
      exact grows.walk h

end Grows

/-! Walks to a directory in a tree where files are put in place of other entries. -/

/-- `u` is `t` but for files of its own. -/
structure Overlays (t u : FileTree) : Prop where
  current : u.current = t.current
  node (q : Place) : u.node? q = t.node? q ∨ ∃ content, u.node? q = some (.file content)

/-- What is left to be walked behind a link ends as the whole way does. -/
theorem rest_of_advance {t : FileTree} {here directory : Place} {xs rest : List Segment}
    {target : Path}
    (h : t.advance true here (xs ++ [Segment.here]) = .ok (.link directory target rest)) :
    ∃ ys, rest = ys ++ [Segment.here] := by
  induction xs generalizing here with
  | nil =>
      rw [List.nil_append, advance_stride, stride_here] at h
      dsimp only at h
      rw [advance_nil] at h
      cases h
  | cons s xs ih =>
      rw [List.cons_append, advance_stride] at h
      cases hs : t.stride here s with
      | onto place =>
          rw [hs] at h
          exact ih h
      | barred =>
          rw [hs] at h
          cases h
      | vacant | file _ =>
          rw [hs] at h
          dsimp only at h
          rw [if_neg (by simp)] at h
          cases h
      | link target =>
          rw [hs] at h
          cases h
          exact ⟨xs, rfl⟩

namespace Overlays

variable {t u : FileTree}

theorem put_file (t : FileTree) (q : Place) (content : ByteArray) :
    Overlays t (t.put q (.file content)) := by
  refine ⟨rfl, fun r => ?_⟩
  cases t.node?_put_cases q r (.file content) with
  | inl same => exact Or.inl same
  | inr file => exact Or.inr ⟨content, file.2⟩

theorem advance (overlays : Overlays t u) (here : Place) (xs : List Segment) :
    u.advance true here (xs ++ [Segment.here]) = t.advance true here (xs ++ [Segment.here]) ∨
      u.advance true here (xs ++ [Segment.here]) = .error .notDirectory := by
  induction xs generalizing here with
  | nil =>
      left
      rw [List.nil_append, advance_stride, advance_stride, stride_here, stride_here]
      dsimp only
      rw [advance_nil, advance_nil]
  | cons s xs ih =>
      have stride : u.stride here s = t.stride here s ∨ ∃ c, u.stride here s = .file c := by
        apply stride_related (R := fun r r' => r' = r ∨ ∃ c, r' = .file c) t u here s
          fun _ => Or.inl rfl
        rcases overlays.node (here ++ [s]) with same | ⟨content, file⟩
        · exact Or.inl (by rw [same])
        · exact Or.inr ⟨content, by rw [file, Stride.at]⟩
      rw [List.cons_append, advance_stride, advance_stride]
      rcases stride with same | ⟨content, file⟩
      · rw [same]
        cases t.stride here s with
        | onto place => exact ih place
        | barred | vacant | file _ | link _ => exact Or.inl rfl
      · right
        rw [file]
        exact if_neg (by simp)

theorem walk (overlays : Overlays t u) (links : Nat) (here : Place) (xs : List Segment) :
    u.walk true links here (xs ++ [Segment.here]) = t.walk true links here (xs ++ [Segment.here]) ∨
      u.walk true links here (xs ++ [Segment.here]) = .error .notDirectory := by
  induction links generalizing here xs with
  | zero =>
      rcases overlays.advance here xs with same | stopped
      · left
        rw [walk.eq_def, walk.eq_def, same]
      · exact Or.inr (walk_error stopped)
  | succ links ih =>
      rcases overlays.advance here xs with same | stopped
      · cases down : t.advance true here (xs ++ [Segment.here]) with
        | error fault => exact Or.inl (by rw [walk_error down, walk_error (same.trans down)])
        | ok progress =>
            cases progress with
            | ended found => exact Or.inl (by rw [walk_ended down, walk_ended (same.trans down)])
            | link directory target rest =>
                obtain ⟨ys, rfl⟩ := rest_of_advance down
                rw [walk_link_succ down, walk_link_succ (same.trans down), ← List.append_assoc]
                exact ih _ _
      · exact Or.inr (walk_error stopped)

end Overlays

/-! Walks to a directory in a tree that has all directories and links of another. -/

/-- The directories and the links of `t` are in `u` too. -/
structure Carries (t u : FileTree) : Prop where
  current : u.current = t.current
  directory (q : Place) : t.node? q = some .directory → u.node? q = some .directory
  link (q : Place) (target : Path) :
    t.node? q = some (.link target) → u.node? q = some (.link target)

namespace Carries

variable {t u : FileTree}

theorem stride (carries : Carries t u) (here : Place) (s : Segment) :
    u.stride here s = t.stride here s ∨ t.stride here s = .vacant ∨
      ∃ content, t.stride here s = .file content := by
  apply stride_related
    (R := fun r r' => r' = r ∨ r = .vacant ∨ ∃ content, r = .file content) t u here s
    fun _ => Or.inl rfl
  cases node : t.node? (here ++ [s]) with
  | none => exact Or.inr (Or.inl rfl)
  | some n =>
      cases n with
      | file content => exact Or.inr (Or.inr ⟨content, rfl⟩)
      | link target => exact Or.inl (by rw [carries.link _ _ node])
      | directory => exact Or.inl (by rw [carries.directory _ node])

theorem advance (carries : Carries t u) {here : Place} {xs : List Segment} {progress : Progress}
    (h : t.advance true here (xs ++ [Segment.here]) = .ok progress) :
    u.advance true here (xs ++ [Segment.here]) = .ok progress := by
  induction xs generalizing here with
  | nil =>
      rw [List.nil_append, advance_stride, stride_here] at h ⊢
      dsimp only at h ⊢
      rw [advance_nil] at h ⊢
      exact h
  | cons s xs ih =>
      rw [List.cons_append, advance_stride] at h ⊢
      rcases carries.stride here s with same | vacant | ⟨content, file⟩
      · rw [same]
        cases hs : t.stride here s with
        | onto place =>
            rw [hs] at h
            exact ih h
        | barred | vacant | file _ | link _ =>
            rw [hs] at h
            exact h
      -- a walk that is not at its end cannot come through a free name or a file
      · rw [vacant] at h
        dsimp only at h
        rw [if_neg (by simp)] at h
        cases h
      · rw [file] at h
        dsimp only at h
        rw [if_neg (by simp)] at h
        cases h

theorem walk (carries : Carries t u) {links : Nat} {here : Place} {xs : List Segment}
    {found : Found} (h : t.walk true links here (xs ++ [Segment.here]) = .ok found) :
    u.walk true links here (xs ++ [Segment.here]) = .ok found := by
  induction links generalizing here xs with
  | zero =>
      cases down : t.advance true here (xs ++ [Segment.here]) with
      | error fault =>
          rw [walk_error down] at h
          cases h
      | ok progress =>
          cases progress with
          | ended found =>
              rw [walk_ended down] at h
              rw [walk_ended (carries.advance down), h]
          | link directory target rest =>
              rw [walk_link_zero down] at h
              cases h
  | succ links ih =>
      cases down : t.advance true here (xs ++ [Segment.here]) with
      | error fault =>
          rw [walk_error down] at h
          cases h
      | ok progress =>
          cases progress with
          | ended found =>
              rw [walk_ended down] at h
              rw [walk_ended (carries.advance down), h]
          | link directory target rest =>
              obtain ⟨ys, rfl⟩ := rest_of_advance down
              rw [walk_link_succ down, ← List.append_assoc] at h
              rw [walk_link_succ (carries.advance down), ← List.append_assoc]
              exact ih h

end Carries

/-! Walks that go on from where a shorter walk led. -/

/-- Where a walk along `xs` comes, as far as longer walks can tell: to a directory, to a link, or
nowhere. What follows makes the walk longer, or the walk goes through a link at its end. -/
theorem advance_append (t : FileTree) (here : Place) (xs : List Segment) :
    (∃ place, ∀ follow ys, t.advance follow here (xs ++ ys) = t.advance follow place ys) ∨
    (∃ directory target rest, ∀ follow ys, follow = true ∨ ys ≠ [] →
      t.advance follow here (xs ++ ys) = .ok (.link directory target (rest ++ ys))) ∨
    (∃ fault, (∀ follow, ∀ ys ≠ [], t.advance follow here (xs ++ ys) = .error fault) ∧
      ∀ progress, t.advance true here xs = .ok progress →
        ∃ found, progress = .ended found ∧ ∀ place, found ≠ .entry place .directory) := by
  induction xs generalizing here with
  | nil => exact Or.inl ⟨here, fun _ _ => rfl⟩
  | cons s xs ih =>
      simp only [List.cons_append, advance_follow]
      cases t.stride here s with
      | onto place => exact ih place
      | barred => exact Or.inr (Or.inr ⟨.nameTooLong, fun _ _ _ => rfl, nofun⟩)
      | vacant =>
          refine Or.inr (Or.inr ⟨.notFound, fun _ ys more => if_neg (by simp [more]), ?_⟩)
          intro progress h
          dsimp only at h
          split at h
          · cases h
            exact ⟨_, rfl, nofun⟩
          · cases h
      | file content =>
          refine Or.inr (Or.inr ⟨.notDirectory, fun _ ys more => if_neg (by simp [more]), ?_⟩)
          intro progress h
          dsimp only at h
          split at h
          · cases h
            exact ⟨_, rfl, nofun⟩
          · cases h
      | link target =>
          refine Or.inr (Or.inl ⟨here, target, xs, fun follow ys more => if_neg ?_⟩)
          rintro ⟨ends, stops⟩
          cases more with
          | inl follows => exact absurd (follows.symm.trans stops) (by decide)
          | inr more => exact more (List.append_eq_nil_iff.1 ends).2

theorem walk_nowhere {t : FileTree} {here : Place} {xs : List Segment}
    (nowhere : ∀ progress, t.advance true here xs = .ok progress →
      ∃ found, progress = .ended found ∧ ∀ place, found ≠ .entry place .directory)
    (links : Nat) (place : Place) : t.walk true links here xs ≠ .ok (.entry place .directory) := by
  cases down : t.advance true here xs with
  | error fault => rw [walk_error down]; nofun
  | ok progress =>
      obtain ⟨found, rfl, other⟩ := nowhere progress down
      rw [walk_ended down]
      intro h
      cases h
      exact other place rfl

/-- A walk along `xs` leads to a directory that every longer walk goes on from, or every longer walk
fails in one way. -/
theorem walk_append (t : FileTree) (links : Nat) (here : Place) (xs : List Segment) :
    (∃ place left, ∀ follow ys, follow = true ∨ ys ≠ [] →
      t.walk follow links here (xs ++ ys) = t.walk follow left place ys) ∨
    (∃ fault, (∀ follow, ∀ ys ≠ [], t.walk follow links here (xs ++ ys) = .error fault) ∧
      ∀ place, t.walk true links here xs ≠ .ok (.entry place .directory)) := by
  induction links generalizing here xs with
  | zero =>
      rcases t.advance_append here xs with
        ⟨place, goes⟩ | ⟨directory, target, rest, goes⟩ | ⟨fault, fails, nowhere⟩
      · refine Or.inl ⟨place, 0, fun follow ys _ => ?_⟩
        rw [walk.eq_def, walk.eq_def, goes]
      · refine Or.inr ⟨.tooManyLinks, fun follow ys more => ?_, fun place h => ?_⟩
        · exact walk_link_zero (goes follow ys (Or.inr more))
        · have down := goes true [] (Or.inl rfl)
          rw [List.append_nil] at down
          rw [walk_link_zero down] at h
          cases h
      · refine Or.inr ⟨fault, fun follow ys more => ?_, walk_nowhere nowhere 0⟩
        exact walk_error (fails follow ys more)
  | succ links ih =>
      rcases t.advance_append here xs with
        ⟨place, goes⟩ | ⟨directory, target, rest, goes⟩ | ⟨fault, fails, nowhere⟩
      · refine Or.inl ⟨place, links + 1, fun follow ys _ => ?_⟩
        rw [walk.eq_def, walk.eq_def t follow (links + 1) place, goes]
      · have through (follow : Bool) (ys : List Segment) (more : follow = true ∨ ys ≠ []) :
            t.walk follow (links + 1) here (xs ++ ys) =
              t.walk follow links (start directory target) (target.steps ++ rest ++ ys) := by
          rw [walk_link_succ (goes follow ys more), List.append_assoc]
        rcases ih (start directory target) (target.steps ++ rest) with
          ⟨place, left, goes⟩ | ⟨fault, fails, nowhere⟩
        · refine Or.inl ⟨place, left, fun follow ys more => ?_⟩
          rw [through follow ys more, goes follow ys more]
        · refine Or.inr ⟨fault, fun follow ys more => ?_, fun place => ?_⟩
          · rw [through follow ys (Or.inr more), fails follow ys more]
          · have down := through true [] (Or.inl rfl)
            rw [List.append_nil, List.append_nil] at down
            rw [down]
            exact nowhere place
      · refine Or.inr ⟨fault, fun follow ys more => ?_, walk_nowhere nowhere _⟩
        exact walk_error (fails follow ys more)

theorem walk_here (t : FileTree) (links : Nat) (here : Place) :
    t.walk true links here [Segment.here] = .ok (.entry here .directory) := by
  apply walk_ended
  rw [advance_stride, stride_here]
  exact advance_nil t true here

theorem walk_on {t : FileTree} {links : Nat} {here place : Place} {xs : List Segment} {node : Node}
    (h : t.walk true links here (xs ++ [Segment.here]) = .ok (.entry place node)) :
    node = .directory ∧ ∃ left, ∀ follow, ∀ ys ≠ [],
      t.walk follow links here (xs ++ ys) = t.walk follow left place ys := by
  cases t.walk_append links here xs with
  | inl leads =>
      obtain ⟨place', left, goes⟩ := leads
      rw [goes _ _ (Or.inl rfl), walk_here] at h
      cases h
      exact ⟨rfl, left, fun follow ys more => goes follow ys (Or.inr more)⟩
  | inr nowhere =>
      obtain ⟨fault, fails, _⟩ := nowhere
      rw [fails _ _ (List.cons_ne_nil _ _)] at h
      cases h

theorem walk_stops {t : FileTree} {links : Nat} {here : Place} {xs ys : List Segment} {fault : Fault}
    (h : t.walk true links here (xs ++ [Segment.here]) = .error fault) (follow : Bool)
    (more : ys ≠ []) : t.walk follow links here (xs ++ ys) = .error fault := by
  cases t.walk_append links here xs with
  | inl leads =>
      obtain ⟨place, left, goes⟩ := leads
      rw [goes _ _ (Or.inl rfl), walk_here] at h
      cases h
  | inr nowhere =>
      obtain ⟨fault', fails, _⟩ := nowhere
      rw [fails _ _ (List.cons_ne_nil _ _)] at h
      cases h
      exact fails follow ys more

theorem walk_here_ne_vacant {t : FileTree} {links : Nat} {here place : Place} {xs : List Segment} :
    t.walk true links here (xs ++ [Segment.here]) ≠ .ok (.vacant place) := by
  intro h
  cases t.walk_append links here xs with
  | inl leads =>
      obtain ⟨place, left, goes⟩ := leads
      rw [goes _ _ (Or.inl rfl), walk_here] at h
      cases h
  | inr nowhere =>
      obtain ⟨fault, fails, _⟩ := nowhere
      rw [fails _ _ (List.cons_ne_nil _ _)] at h
      cases h

/-- A walk that ends in a directory does so with a `.` at its end too. -/
theorem walk_concat_here {t : FileTree} {links : Nat} {here place : Place} {xs : List Segment}
    (h : t.walk true links here xs = .ok (.entry place .directory)) :
    t.walk true links here (xs ++ [Segment.here]) = .ok (.entry place .directory) := by
  cases t.walk_append links here xs with
  | inl leads =>
      obtain ⟨place', left, goes⟩ := leads
      have ends := goes true [] (Or.inl rfl)
      rw [List.append_nil, h, walk_ended (advance_nil t true place')] at ends
      cases ends
      rw [goes _ _ (Or.inl rfl), walk_here]
  | inr nowhere =>
      obtain ⟨_, _, nowhere⟩ := nowhere
      exact absurd h (nowhere place)

end ScriptImports.FileTree
