import ScriptImports.Proofs.Directories
import ScriptImports.Proofs.Paths

/-!
Normal forms of paths. A normal form is a root, or a run of `..`, and then ordinary names. A path is
brought into it by pushing its segments on a stack; what is left there acts on every other stack as
the segments themselves do, so that either part of a joined path may be brought into normal form
first.
-/
namespace ScriptImports.Path

theorem join_of_isRooted (base : Path) {p : Path} (h : p.isRooted = true) : base.join p = p := by
  rw [join, if_pos h]

/-! The stack. -/

theorem push_of_ne (rooted : Bool) (stack : List Segment) {s : Segment} (other : s ≠ Segment.up) :
    push rooted stack s = s :: stack := by
  cases stack <;> simp [push, other]

theorem push_up (rooted : Bool) (stack : List Segment) {s : Segment} (other : s ≠ Segment.up) :
    push rooted (push rooted stack s) Segment.up = stack := by
  rw [push_of_ne rooted stack other]
  simp [push, other]

/-- Without a root, a `..` that has nothing to take stays. -/
theorem push_up_replicate (ups : Nat) :
    push false (List.replicate ups Segment.up) Segment.up =
      List.replicate (ups + 1) Segment.up := by
  cases ups <;> simp [push, List.replicate_succ]

section

variable {inner outer : Bool} {stack : List Segment}

/-- Where a `..` was held back at the root, it must be held back on the other stack too. -/
theorem foldl_reverse_push (stays : inner = true → push outer stack Segment.up = stack)
    (left : List Segment) (s : Segment) :
    (push inner left s).reverse.foldl (push outer) stack =
      push outer (left.reverse.foldl (push outer) stack) s := by
  by_cases up : s = Segment.up
  · subst up
    cases left with
    | nil =>
        cases inner with
        | true => exact (stays rfl).symm
        | false => rfl
    | cons top rest =>
        by_cases piled : top = Segment.up
        · simp [push, piled]
        · rw [← push_of_ne inner rest piled, push_up inner rest piled, push_of_ne inner rest piled]
          simp only [List.reverse_cons, List.foldl_append, List.foldl_cons, List.foldl_nil]
          rw [push_up outer _ piled]
  · rw [push_of_ne inner left up]
    simp only [List.reverse_cons, List.foldl_append, List.foldl_cons, List.foldl_nil]

theorem foldl_reverse_foldl (stays : inner = true → push outer stack Segment.up = stack)
    (steps left : List Segment) :
    (steps.foldl (push inner) left).reverse.foldl (push outer) stack =
      steps.foldl (push outer) (left.reverse.foldl (push outer) stack) := by
  induction steps generalizing left with
  | nil => rfl
  | cons s steps ih =>
      simp only [List.foldl_cons]
      rw [ih, foldl_reverse_push stays]

end

/-- The settled segments of a path act on a stack as its segments do. -/
theorem foldl_settled {p : Path} {outer : Bool} {stack : List Segment}
    (stays : p.isRooted = true → push outer stack Segment.up = stack) :
    p.settled.foldl (push outer) stack = p.segments.foldl (push outer) stack :=
  foldl_reverse_foldl stays p.segments []

@[simp] theorem isRooted_normalize (p : Path) : p.normalize.isRooted = p.isRooted :=
  isRooted_ofSegments isName_of_mem_settled

@[simp] theorem segments_normalize (p : Path) : p.normalize.segments = p.settled :=
  segments_ofSegments isName_of_mem_settled

theorem normalize_congr {p q : Path} (rooted : p.isRooted = q.isRooted)
    (stack : p.segments.foldl (push p.isRooted) [] = q.segments.foldl (push p.isRooted) []) :
    p.normalize = q.normalize := by
  rw [normalize, normalize, settled, settled, stack, rooted]

theorem normalize_normalize (p : Path) : p.normalize.normalize = p.normalize := by
  apply normalize_congr (isRooted_normalize p)
  rw [segments_normalize, isRooted_normalize]
  apply foldl_settled
  intro rooted
  rw [rooted]
  rfl

theorem normalize_join_left (base p : Path) :
    (base.normalize.join p).normalize = (base.join p).normalize := by
  cases rooted : p.isRooted with
  | true => rw [join_of_isRooted _ rooted, join_of_isRooted _ rooted]
  | false =>
      apply normalize_congr
      · rw [isRooted_join _ _ rooted, isRooted_join _ _ rooted, isRooted_normalize]
      · rw [isRooted_join _ _ rooted, segments_join _ _ rooted, segments_join _ _ rooted,
          isRooted_normalize, segments_normalize, List.foldl_append, List.foldl_append,
          foldl_settled]
        intro root
        rw [root]
        rfl

theorem normalize_join_right (base p : Path) :
    (base.join p.normalize).normalize = (base.join p).normalize := by
  cases rooted : p.isRooted with
  | true =>
      have same : p.normalize.isRooted = true := by rw [isRooted_normalize, rooted]
      rw [join_of_isRooted _ rooted, join_of_isRooted _ same, normalize_normalize]
  | false =>
      have same : p.normalize.isRooted = false := by rw [isRooted_normalize, rooted]
      apply normalize_congr
      · rw [isRooted_join _ _ rooted, isRooted_join _ _ same]
      · rw [isRooted_join _ _ same, segments_join _ _ rooted, segments_join _ _ same,
          segments_normalize, List.foldl_append, List.foldl_append, foldl_settled]
        intro root
        rw [rooted] at root
        cases root

/-! The form. -/

/-- A segment that goes down by one directory. -/
def IsOrdinary (s : Segment) : Prop := IsName s ∧ s ≠ Segment.up

/-- A root, or else any number of `..`, and then ordinary names, with one slash between two
segments. -/
def IsNormal (p : Path) : Prop :=
  ∃ ups names, (p.isRooted = true → ups = 0) ∧ (∀ s ∈ names, IsOrdinary s) ∧
    p = ofSegments p.isRooted (List.replicate ups Segment.up ++ names)

/-- On a stack the ordinary names lie above the `..` that had nothing to take. -/
theorem foldl_push_shape {rooted : Bool} (steps : List Segment) (each : ∀ s ∈ steps, IsName s) :
    ∀ ups names, (rooted = true → ups = 0) → (∀ s ∈ names, IsOrdinary s) →
      ∃ ups' names', (rooted = true → ups' = 0) ∧ (∀ s ∈ names', IsOrdinary s) ∧
        steps.foldl (push rooted) (names ++ List.replicate ups Segment.up) =
          names' ++ List.replicate ups' Segment.up := by
  induction steps with
  | nil => exact fun ups names none ordinary => ⟨ups, names, none, ordinary, rfl⟩
  | cons s steps ih =>
      intro ups names none ordinary
      have later := ih fun x hx => each x (List.mem_cons_of_mem s hx)
      rw [List.foldl_cons]
      by_cases up : s = Segment.up
      · subst up
        cases names with
        | cons top names =>
            have last : push rooted (top :: names ++ List.replicate ups Segment.up) Segment.up =
                names ++ List.replicate ups Segment.up := by
              simp [push, (ordinary top List.mem_cons_self).2]
            rw [last]
            exact later ups names none fun x hx => ordinary x (List.mem_cons_of_mem top hx)
        | nil =>
            cases rooted with
            | true =>
                rw [none rfl]
                exact later 0 [] (fun _ => rfl) nofun
            | false =>
                rw [List.nil_append, push_up_replicate]
                exact later (ups + 1) [] nofun nofun
      · rw [push_of_ne rooted _ up, ← List.cons_append]
        apply later ups (s :: names) none
        exact List.forall_mem_cons.2 ⟨⟨each s List.mem_cons_self, up⟩, ordinary⟩

theorem settled_shape (p : Path) :
    ∃ ups names, (p.isRooted = true → ups = 0) ∧ (∀ s ∈ names, IsOrdinary s) ∧
      p.settled = List.replicate ups Segment.up ++ names := by
  obtain ⟨ups, names, none, ordinary, stack⟩ :=
    @foldl_push_shape p.isRooted p.segments (fun s hs => isName_of_mem_segments hs) 0 []
      (fun _ => rfl) nofun
  refine ⟨ups, names.reverse, none, fun s hs => ordinary s (List.mem_reverse.1 hs), ?_⟩
  rw [List.replicate_zero, List.append_nil] at stack
  rw [settled, stack, List.reverse_append, List.reverse_replicate]

theorem isNormal_normalize (p : Path) : p.normalize.IsNormal := by
  obtain ⟨ups, names, none, ordinary, settled⟩ := settled_shape p
  refine ⟨ups, names, ?_, ordinary, ?_⟩
  · rwa [isRooted_normalize]
  · rw [isRooted_normalize, ← settled, normalize]

theorem foldl_push_ordinary (rooted : Bool) (names stack : List Segment)
    (ordinary : ∀ s ∈ names, IsOrdinary s) :
    names.foldl (push rooted) stack = names.reverse ++ stack := by
  induction names generalizing stack with
  | nil => rfl
  | cons s names ih =>
      rw [List.foldl_cons, push_of_ne rooted stack (ordinary s List.mem_cons_self).2,
        ih (s :: stack) fun x hx => ordinary x (List.mem_cons_of_mem s hx)]
      simp

theorem foldl_push_ups (ups below : Nat) :
    (List.replicate ups Segment.up).foldl (push false) (List.replicate below Segment.up) =
      List.replicate (ups + below) Segment.up := by
  induction ups generalizing below with
  | zero => simp
  | succ ups ih =>
      rw [List.replicate_succ, List.foldl_cons, push_up_replicate, ih]
      congr 1
      omega

theorem isName_of_mem_normal {ups : Nat} {names : List Segment}
    (ordinary : ∀ s ∈ names, IsOrdinary s) :
    ∀ s ∈ List.replicate ups Segment.up ++ names, IsName s := by
  intro s hs
  cases List.mem_append.1 hs with
  | inl hs => rw [List.eq_of_mem_replicate hs]; exact ⟨by decide, by decide, by decide⟩
  | inr hs => exact (ordinary s hs).1

/-- Normal forms are the paths that are their own. -/
theorem normalize_eq_self_iff {p : Path} : p.normalize = p ↔ p.IsNormal := by
  constructor
  · intro same
    rw [← same]
    exact isNormal_normalize p
  · rintro ⟨ups, names, none, ordinary, spelled⟩
    have segments : p.segments = List.replicate ups Segment.up ++ names := by
      rw [spelled, segments_ofSegments (isName_of_mem_normal ordinary)]
    have stack : p.segments.foldl (push p.isRooted) [] =
        names.reverse ++ List.replicate ups Segment.up := by
      rw [segments, List.foldl_append, foldl_push_ordinary _ _ _ ordinary]
      cases rooted : p.isRooted with
      | true => rw [none rooted]; rfl
      | false =>
          have piled := foldl_push_ups ups 0
          rw [List.replicate_zero, Nat.add_zero] at piled
          rw [piled]
    rw [normalize, settled, stack, List.reverse_append, List.reverse_reverse,
      List.reverse_replicate, ← spelled]

/-! Directories in normal form, and what is put in them. -/

theorem IsNormal.isPlain {p : Path} (normal : p.IsNormal) : p.IsPlain := by
  obtain ⟨ups, names, _, ordinary, spelled⟩ := normal
  rw [spelled]
  exact isPlain_ofSegments (isName_of_mem_normal ordinary)

theorem isNormal_anchor (p base : Path) : (p.anchor base).IsNormal := by
  rw [anchor]
  split <;> exact isNormal_normalize _

theorem isRooted_anchor (p : Path) {base : Path} (rooted : base.isRooted = true) :
    (p.anchor base).isRooted = true := by
  rw [anchor]
  split
  · next root => rw [isRooted_normalize, root]
  · next unrooted => rw [isRooted_normalize, isRooted_join _ _ (by simpa using unrooted), rooted]

/-- What is left of a normal form without its last segment. -/
theorem isNormal_dropLast {p : Path} (normal : p.IsNormal) :
    (ofSegments p.isRooted p.segments.dropLast).IsNormal := by
  obtain ⟨ups, names, none, ordinary, spelled⟩ := normal
  have segments : p.segments = List.replicate ups Segment.up ++ names := by
    rw [spelled, segments_ofSegments (isName_of_mem_normal ordinary)]
  have shape : ∃ ups' names', (p.isRooted = true → ups' = 0) ∧ (∀ s ∈ names', IsOrdinary s) ∧
      p.segments.dropLast = List.replicate ups' Segment.up ++ names' := by
    rw [segments]
    cases names.eq_nil_or_concat with
    | inl nothing =>
        refine ⟨ups - 1, [], fun rooted => by rw [none rooted], nofun, ?_⟩
        rw [nothing, List.append_nil, List.append_nil, List.dropLast_replicate]
    | inr last =>
        obtain ⟨above, s, rfl⟩ := last
        rw [List.concat_eq_append] at ordinary ⊢
        refine ⟨ups, above, none, fun x hx => ordinary x (List.mem_append_left _ hx), ?_⟩
        rw [← List.append_assoc, List.dropLast_concat]
  obtain ⟨ups', names', none', ordinary', dropped⟩ := shape
  have rooted : (ofSegments p.isRooted p.segments.dropLast).isRooted = p.isRooted := by
    rw [dropped, isRooted_ofSegments (isName_of_mem_normal ordinary')]
  exact ⟨ups', names', by rwa [rooted], ordinary', by rw [rooted, dropped]⟩

theorem isNormal_folder (file base : Path) : (file.folder base).IsNormal := by
  have normal := isNormal_anchor file base
  rw [folder, parent?]
  split
  · split
    · next here =>
        exact ⟨0, [], fun _ => rfl, nofun, rfl⟩
    · exact normal
  · exact isNormal_dropLast normal

theorem isRooted_folder (file : Path) {base : Path} (rooted : base.isRooted = true) :
    (file.folder base).isRooted = true := by
  have anchored := isRooted_anchor file rooted
  rw [folder, parent?]
  split
  · split
    · next here =>
        rw [startsHere_of_isRooted anchored] at here
        cases here
    · exact anchored
  · rw [anchored]
    rfl

section

variable {p : Path} {name : String}

/-- A directory that is spelled by its segments is what is above the names in it. -/
theorem parent?_child (plain : p.IsPlain) (named : IsName (.ofString name)) :
    (p.child name).parent? = some p := by
  rw [parent?, segments_child p named, if_neg (by simp),
    isRooted_child p (by simpa using named.2.2), List.dropLast_concat, ← plain]

theorem IsNormal.child (normal : p.IsNormal) (ordinary : IsOrdinary (.ofString name)) :
    (p.child name).IsNormal := by
  obtain ⟨ups, names, none, each, spelled⟩ := normal
  have unrooted : '/' ∉ name.toList := by simpa using ordinary.1.2.2
  refine ⟨ups, names ++ [.ofString name], ?_, ?_, ?_⟩
  · rwa [isRooted_child p unrooted]
  · simpa [List.forall_mem_append, or_imp, forall_and] using ⟨each, ordinary⟩
  · rw [isRooted_child p unrooted, ← List.append_assoc,
      ← child_ofSegments (isName_of_mem_normal each) ordinary.1, ← spelled]

end

/-! The text of a normal form. -/

/-- Two slashes, which an empty piece would leave. -/
def slashes : PathText := [.char '/', .char '/']

theorem slashes_of_append {s rest : PathText} (plain : .char '/' ∉ s) (h : slashes <:+: s ++ rest) :
    slashes <:+: rest := by
  induction s with
  | nil => exact h
  | cons c s ih =>
      rw [List.mem_cons, not_or] at plain
      rw [List.cons_append, List.infix_cons_iff] at h
      cases h with
      | inl first => exact absurd (List.cons_prefix_cons.1 first).1 plain.1
      | inr later => exact ih plain.2 later

theorem no_slashes_intercalate {names : List Segment} (each : ∀ s ∈ names, IsName s) :
    ¬ slashes <:+: .char '/' :: [.char '/'].intercalate names := by
  induction names with
  | nil => decide
  | cons s names ih =>
      obtain ⟨some, _, plain⟩ := each s List.mem_cons_self
      have first (rest : PathText) : ¬ slashes <+: .char '/' :: (s ++ rest) := by
        obtain ⟨c, cs, rfl⟩ := List.exists_cons_of_ne_nil some
        simp only [slashes, List.cons_append, List.cons_prefix_cons, true_and]
        exact fun slash => plain (slash.1 ▸ List.mem_cons_self)
      have later := ih fun x hx => each x (List.mem_cons_of_mem s hx)
      intro slashes
      rw [List.infix_cons_iff] at slashes
      cases names with
      | nil =>
          rw [List.intercalate_singleton, ← List.append_nil s] at slashes
          cases slashes with
          | inl here => exact first [] here
          | inr there => exact absurd (slashes_of_append plain there) (by decide)
      | cons next names =>
          rw [List.intercalate_cons_cons, List.append_assoc, List.singleton_append] at slashes
          cases slashes with
          | inl here => exact first _ here
          | inr there => exact later (slashes_of_append plain there)

theorem IsPlain.no_slashes {p : Path} (plain : p.IsPlain) : ¬ slashes <:+: p.chars := by
  have each : ∀ s ∈ p.segments, IsName s := fun s hs => isName_of_mem_segments hs
  have none := no_slashes_intercalate each
  rw [plain, ofSegments]
  cases p.isRooted with
  | true => exact none
  | false =>
      intro slashes
      exact none (List.infix_cons slashes)

theorem IsPlain.ends {p : Path} (plain : p.IsPlain) (slash : p.chars.getLast? = some (.char '/')) :
    p = root := by
  by_cases none : p.segments = []
  · rw [plain, none] at slash ⊢
    cases rooted : p.isRooted with
    | true => rfl
    | false =>
        rw [rooted] at slash
        cases slash
  · obtain ⟨c, other, ends⟩ :=
      @getLast?_ofSegments p.isRooted p.segments (fun s hs => isName_of_mem_segments hs) none
    rw [← plain, slash] at ends
    exact absurd (Option.some.inj ends).symm other

/-- Normalizing keeps the root, and gives a normal form: one without `//` and, but for the root
itself, without a slash at the end. Normal forms, and no other paths, stay as they are, and whether
the parts of a joined path are brought into normal form first makes no difference. -/
theorem normalize_canonical (base p : Path) :
    p.normalize.isRooted = p.isRooted ∧ p.normalize.IsNormal ∧
    ¬ slashes <:+: p.normalize.chars ∧
    (p.normalize.chars.getLast? = some (.char '/') → p.normalize = root) ∧
    (p.normalize = p ↔ p.IsNormal) ∧ p.normalize.normalize = p.normalize ∧
    (base.join p).normalize = (base.normalize.join p).normalize ∧
    (base.join p).normalize = (base.join p.normalize).normalize :=
  ⟨isRooted_normalize p, isNormal_normalize p, (isPlain_normalize p).no_slashes,
    (isPlain_normalize p).ends, normalize_eq_self_iff, normalize_normalize p,
    (normalize_join_left base p).symm, (normalize_join_right base p).symm⟩

end ScriptImports.Path
