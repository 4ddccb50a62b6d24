import ScriptImports.Path
import ScriptImports.Proofs.Pieces

/-!
Paths that are spelled by their segments: a slash for the root, a slash between two segments, and no
other character. Such a path is known from its key. Normal forms are spelled so, and so is a name
that is put below one.
-/
namespace ScriptImports.Path

theorem isRooted_ofString {name : String} (plain : '/' ∉ name.toList) :
    (ofString name).isRooted = false := by
  rw [isRooted, beq_eq_false_iff_ne]
  exact fun slash => plain ((PathText.char_mem_ofString '/' name).1 (List.mem_of_head? slash))

theorem isRooted_iff {p : Path} : p.isRooted = true ↔ ∃ below, p.chars = .char '/' :: below := by
  rw [isRooted, beq_iff_eq, List.head?_eq_some_iff]

theorem isRooted_ofString_iff {name : String} :
    (ofString name).isRooted = true ↔ ∃ below, name.toList = '/' :: below := by
  rw [isRooted_iff, ofString, PathText.ofString]
  cases name.toList <;> simp

/-- What stands before the slash of the root is empty. -/
theorem startsHere_of_isRooted {p : Path} (rooted : p.isRooted = true) : p.startsHere = false := by
  obtain ⟨below, spelled⟩ := isRooted_iff.1 rooted
  rw [startsHere, pieces, spelled, List.splitOn_cons_eq_if_modifyHead, if_pos (by simp)]
  rfl

/-- What a segment of a path can be. -/
def IsName (s : Segment) : Prop := s ≠ [] ∧ s ≠ Segment.here ∧ .char '/' ∉ s

theorem slash_not_mem_pieces (p : Path) : ∀ s ∈ p.pieces, .char '/' ∉ s :=
  Text.not_mem_of_mem_splitOn p.chars

theorem isName_of_mem_segments {p : Path} {s : Segment} (h : s ∈ p.segments) : IsName s := by
  rw [segments, List.mem_filter] at h
  simp only [Bool.and_eq_true, bne_iff_ne] at h
  exact ⟨h.2.1, h.2.2, slash_not_mem_pieces p s h.1⟩

/-- A path that is spelled by its segments. -/
def IsPlain (p : Path) : Prop := p = ofSegments p.isRooted p.segments

section

variable {rooted : Bool} {names : List Segment}

theorem isRooted_ofSegments (each : ∀ s ∈ names, IsName s) :
    (ofSegments rooted names).isRooted = rooted := by
  cases rooted with
  | true => rfl
  | false =>
      cases names with
      | nil => rfl
      | cons s names =>
          obtain ⟨some, _, plain⟩ := each s List.mem_cons_self
          obtain ⟨c, cs, rfl⟩ := List.exists_cons_of_ne_nil some
          have other : c ≠ .char '/' := by
            intro slash
            exact plain (by simp [slash])
          cases names <;> simp [ofSegments, isRooted, List.intercalate, other]

theorem segments_ofSegments (each : ∀ s ∈ names, IsName s) :
    (ofSegments rooted names).segments = names := by
  have kept : names.filter (fun s => s != [] && s != Segment.here) = names := by
    rw [List.filter_eq_self]
    intro s hs
    simpa using ⟨(each s hs).1, (each s hs).2.1⟩
  rw [segments, pieces, ofSegments]
  dsimp only
  by_cases some : names = []
  · subst some
    cases rooted <;> decide
  · have split : ([.char '/'].intercalate names).splitOn (.char '/') = names :=
      List.splitOn_intercalate (.char '/') (fun s hs => (each s hs).2.2) some
    cases rooted with
    | false => simpa [split] using kept
    | true =>
        rw [if_pos rfl, List.singleton_append, List.splitOn_cons_eq_if_modifyHead, if_pos (by simp),
          split, List.filter_cons_of_neg (by simp), kept]

theorem isPlain_ofSegments (each : ∀ s ∈ names, IsName s) : (ofSegments rooted names).IsPlain := by
  rw [IsPlain, isRooted_ofSegments each, segments_ofSegments each]

theorem ofSegments_concat (s : Segment) (some : names ≠ []) :
    ofSegments rooted (names ++ [s]) = ⟨(ofSegments rooted names).chars ++ .char '/' :: s⟩ := by
  have joined : [.char '/'].intercalate (names ++ [s]) = [.char '/'].intercalate names ++ .char '/' :: s := by
    induction names with
    | nil => exact absurd rfl some
    | cons first names ih =>
        cases names with
        | nil => simp [List.intercalate]
        | cons second names =>
            rw [List.cons_append, List.cons_append, List.intercalate_cons_cons,
              List.intercalate_cons_cons, ← List.cons_append, ih (List.cons_ne_nil _ _)]
            simp
  rw [ofSegments, ofSegments, joined, List.append_assoc]

/-- Below the root no slash is left at the end. -/
theorem getLast?_ofSegments (each : ∀ s ∈ names, IsName s) (some : names ≠ []) :
    ∃ c ≠ .char '/', (ofSegments rooted names).chars.getLast? = Option.some c := by
  obtain ⟨above, last, rfl⟩ := List.eq_nil_or_concat names |>.resolve_left some
  rw [List.concat_eq_append] at each ⊢
  obtain ⟨nonempty, _, plain⟩ := each last (by simp)
  refine ⟨last.getLast nonempty, fun slash => plain (slash ▸ List.getLast_mem nonempty), ?_⟩
  by_cases first : above = []
  · subst first
    rw [List.nil_append, ofSegments, List.intercalate_singleton, List.getLast?_append,
      List.getLast?_eq_some_getLast nonempty, Option.some_or]
  · rw [ofSegments_concat last first, List.getLast?_append, List.getLast?_cons,
      List.getLast?_eq_some_getLast nonempty, Option.some_or, Option.getD_some]

theorem child_ofSegments {name : String} (each : ∀ s ∈ names, IsName s)
    (named : IsName (.ofString name)) :
    (ofSegments rooted names).child name = ofSegments rooted (names ++ [.ofString name]) := by
  rw [child, join, isRooted_ofString ((PathText.char_mem_ofString '/' name).not.1 named.2.2)]
  simp only [Bool.false_eq_true, ↓reduceIte]
  by_cases some : names = []
  · subst some
    cases rooted <;> simp [ofSegments, ofString]
  · obtain ⟨c, other, ends⟩ := @getLast?_ofSegments rooted names each some
    rw [if_neg, ofSegments_concat _ some, ofString]
    rintro (nothing | slash)
    · rw [nothing] at ends
      cases ends
    · rw [slash] at ends
      exact other (Option.some.inj ends).symm

end

/-- Two such paths with one key are the same. -/
theorem IsPlain.eq_of_key {p q : Path} (hp : p.IsPlain) (hq : q.IsPlain) (same : p.key = q.key) :
    p = q := by
  rw [key, key, Key.mk.injEq] at same
  rw [hp, hq, same.1, same.2.2]

theorem IsPlain.child {p : Path} {name : String} (hp : p.IsPlain) (named : IsName (.ofString name)) :
    (p.child name).IsPlain := by
  rw [hp, child_ofSegments (fun s hs => isName_of_mem_segments hs) named]
  apply isPlain_ofSegments
  intro s hs
  cases List.mem_append.1 hs with
  | inl hs => exact isName_of_mem_segments hs
  | inr hs => rwa [List.mem_singleton.1 hs]

/-- A name is written behind a text that is empty or ends in a slash. -/
theorem child_chars (p : Path) {name : String} (plain : '/' ∉ name.toList) :
    ∃ above, (above = [] ∨ above.getLast? = some (.char '/')) ∧
      (p.child name).chars = above ++ PathText.ofString name := by
  rw [child, join, isRooted_ofString plain]
  simp only [Bool.false_eq_true, ↓reduceIte]
  split
  · next ends => exact ⟨p.chars, ends, rfl⟩
  · exact ⟨p.chars ++ [.char '/'], by simp, by simp [ofString]⟩

/-- An empty name leaves nothing, or a slash at the end. -/
theorem child_empty (p : Path) :
    (p.child "").chars = [] ∨ (p.child "").chars.getLast? = some (.char '/') := by
  rw [child, join, isRooted_ofString (by decide)]
  simp only [Bool.false_eq_true, ↓reduceIte]
  split
  · next ends => simpa [ofString] using ends
  · simp [ofString]

theorem child_empty_child {p : Path} {name : String} (plain : '/' ∉ name.toList) :
    (p.child "").child name = p.child name := by
  have empty : (ofString "").isRooted = false := isRooted_ofString (by decide)
  simp only [child, join, isRooted_ofString plain, empty, Bool.false_eq_true, ↓reduceIte]
  by_cases ends : p.chars = [] ∨ p.chars.getLast? = some (.char '/') <;> simp [ends, ofString]

theorem push_subset (rooted : Bool) (stack : List Segment) (s : Segment) :
    push rooted stack s ⊆ s :: stack := by
  fun_cases push rooted stack s <;> simp_all

/-- What is left when a path is settled stood in it. -/
theorem settled_subset (p : Path) : p.settled ⊆ p.segments := by
  have kept : ∀ steps stack : List Segment,
      steps.foldl (push p.isRooted) stack ⊆ stack ++ steps := by
    intro steps
    induction steps with
    | nil => exact fun stack => List.subset_append_left stack []
    | cons step steps ih =>
        intro stack s hs
        rw [List.foldl_cons] at hs
        obtain pushed | later := List.mem_append.1 (ih _ hs)
        · obtain rfl | below := List.mem_cons.1 (push_subset _ _ _ pushed)
          · simp
          · exact List.mem_append_left _ below
        · exact List.mem_append_right _ (List.mem_cons_of_mem step later)
  intro s hs
  rw [settled, List.mem_reverse] at hs
  exact kept p.segments [] hs

theorem isName_of_mem_settled {p : Path} : ∀ s ∈ p.settled, IsName s :=
  fun _ hs => isName_of_mem_segments (settled_subset p hs)

theorem isPlain_normalize (p : Path) : p.normalize.IsPlain :=
  isPlain_ofSegments isName_of_mem_settled

end ScriptImports.Path
