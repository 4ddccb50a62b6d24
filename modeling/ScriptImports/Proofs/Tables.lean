import Mathlib.Data.List.Basic

/-!
Tables, as lists of keys with their values. A table with no key twice gives for each key the one
value that stands with it.
-/
namespace ScriptImports.Table

variable {κ β : Type} [BEq κ] [LawfulBEq κ] {l : List (κ × β)} {key : κ} {value : β}

theorem lookup_eq_none_iff : l.lookup key = none ↔ key ∉ l.map Prod.fst := by
  simp only [List.lookup_eq_none_iff, bne_iff_ne, ne_eq, List.mem_map, not_exists, not_and,
    eq_comm (b := key)]

theorem mem_keys_of_lookup (known : l.lookup key = some value) : key ∈ l.map Prod.fst := by
  by_cases member : key ∈ l.map Prod.fst
  · exact member
  · rw [lookup_eq_none_iff.2 member] at known
    cases known

theorem lookup_of_mem (distinct : (l.map Prod.fst).Nodup) (known : (key, value) ∈ l) :
    l.lookup key = some value := by
  induction l with
  | nil => cases known
  | cons entry l ih =>
      rw [List.map_cons, List.nodup_cons] at distinct
      rcases List.mem_cons.1 known with rfl | known
      · exact List.lookup_cons_self
      · have other : (key == entry.1) = false := by
          apply beq_false_of_ne
          intro same
          exact distinct.1 (same ▸ List.mem_map_of_mem known)
        rw [List.lookup_cons, other]
        exact ih distinct.2 known

end ScriptImports.Table
