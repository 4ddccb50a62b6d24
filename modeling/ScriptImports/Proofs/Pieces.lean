import Mathlib.Data.List.Basic

/-!
Texts divided at a mark. The pieces of a text hold no mark and give the text back when marks are put
between them, and no other pieces do.
-/
namespace ScriptImports.Text

variable {γ : Type} {mark : γ} {cs : List γ} {pieces : List (List γ)}

/-- `pieces` are what stands between the marks of a text. -/
structure Divides (mark : γ) (cs : List γ) (pieces : List (List γ)) : Prop where
  joined : [mark].intercalate pieces = cs
  unmarked : ∀ piece ∈ pieces, mark ∉ piece
  nonempty : pieces ≠ []

theorem intercalate_concat_append (before : List (List γ)) (last more : List γ) :
    [mark].intercalate (before ++ [last ++ more]) =
      [mark].intercalate (before ++ [last]) ++ more := by
  induction before with
  | nil => simp
  | cons piece before ih => cases before <;> simp_all [List.intercalate_cons_cons]

variable [DecidableEq γ]

theorem not_mem_of_mem_splitOn (cs : List γ) : ∀ piece ∈ cs.splitOn mark, mark ∉ piece := by
  induction cs with
  | nil => simp
  | cons c cs ih =>
      rw [List.splitOn_cons_eq_if_modifyHead]
      split
      · simpa using ih
      · next other =>
          obtain ⟨first, more, split⟩ := List.exists_cons_of_ne_nil (List.splitOn_ne_nil mark cs)
          rw [split, List.forall_mem_cons] at ih
          rw [split, List.modifyHead_cons, List.forall_mem_cons]
          have here : mark ≠ c := fun same => other (beq_iff_eq.2 same.symm)
          exact ⟨List.not_mem_cons_of_ne_of_not_mem here ih.1, ih.2⟩

theorem divides_iff : Divides mark cs pieces ↔ pieces = cs.splitOn mark := by
  constructor
  · rintro ⟨rfl, unmarked, nonempty⟩
    exact (List.splitOn_intercalate mark unmarked nonempty).symm
  · rintro rfl
    exact ⟨List.intercalate_splitOn mark, not_mem_of_mem_splitOn cs, List.splitOn_ne_nil mark cs⟩

theorem length_splitOn (mark : γ) (cs : List γ) :
    (cs.splitOn mark).length = cs.count mark + 1 := by
  induction cs with
  | nil => simp
  | cons c cs ih =>
      rw [List.splitOn_cons_eq_if_modifyHead, List.count_cons]
      split <;> simp [ih]

/-- What is put behind a text is put behind its last piece. -/
theorem splitOn_concat {c : γ} (other : c ≠ mark) (cs : List γ) :
    ∃ before last, cs.splitOn mark = before ++ [last] ∧
      (cs ++ [c]).splitOn mark = before ++ [last ++ [c]] := by
  obtain ⟨before, last, pieces⟩ :=
    List.eq_nil_or_concat (cs.splitOn mark) |>.resolve_left (List.splitOn_ne_nil mark cs)
  rw [List.concat_eq_append] at pieces
  obtain ⟨rfl, unmarked, _⟩ := divides_iff.2 pieces.symm
  rw [List.forall_mem_append, List.forall_mem_singleton] at unmarked
  refine ⟨before, last, pieces, (divides_iff.1 ⟨intercalate_concat_append _ _ _, ?_, by simp⟩).symm⟩
  rw [List.forall_mem_append, List.forall_mem_singleton, List.mem_append, List.mem_singleton, not_or]
  exact ⟨unmarked.1, unmarked.2, other.symm⟩

/-- Pieces that are read one by one are all read, or none is. -/
theorem mapM_eq_some_iff {α β : Type} {f : α → Option β} {as : List α} {bs : List β} :
    as.mapM f = some bs ↔ as.map f = bs.map some := by
  induction as generalizing bs with
  | nil => cases bs <;> simp
  | cons a as ih =>
      cases bs with
      | nil => simp [List.mapM_cons, Option.bind_eq_some_iff]
      | cons b bs => simp [List.mapM_cons, Option.bind_eq_some_iff, ih]

end ScriptImports.Text
