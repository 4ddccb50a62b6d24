import ScriptImports.Proofs.Tables
import ScriptImports.Toml.Reader

/-!
The keys of a document. Whatever line is added to a table, a key that the table has already is never
added again, so that an entry is all that a document says under its key.
-/
namespace ScriptImports

namespace TomlTable

def Distinct (t : TomlTable) : Prop := (t.map Prod.fst).Nodup

variable {t t' : TomlTable} {key : String} {v : Toml}

theorem Distinct.concat (distinct : t.Distinct) (fresh : t.lookup key = none) (v : Toml) :
    Distinct (t ++ [(key, v)]) := by
  rw [Distinct, List.map_append, List.map_singleton, List.nodup_append]
  refine ⟨distinct, List.pairwise_singleton _ _, ?_⟩
  rintro other hother last hlast rfl
  rw [List.mem_singleton.1 hlast] at hother
  exact Table.lookup_eq_none_iff.1 fresh hother

theorem Distinct.set (distinct : t.Distinct) (key : String) (v : Toml) :
    (t.set key v).Distinct := by
  rw [TomlTable.set]
  split
  · have keys : (t.map fun e => if e.1 = key then (key, v) else e).map Prod.fst =
        t.map Prod.fst := by
      rw [List.map_map]
      apply List.map_congr_left
      intro e _
      by_cases here : e.1 = key <;> simp [here]
    rw [Distinct, keys]
    exact distinct
  · next missing => exact distinct.concat (Option.not_isSome_iff_eq_none.1 missing) v

/-- A change further inside sets one key of the table, and other changes are of the table itself. -/
theorem Distinct.within {made : TomlOrigin} {path : List String} {origin : TomlOrigin}
    {change : TomlOrigin → TomlTable → Option TomlTable} (distinct : t.Distinct)
    (changed : TomlTable.within made path origin t change = some t')
    (preserves : ∀ o s s', Distinct s → change o s = some s' → Distinct s') : t'.Distinct := by
  cases path with
  | nil => exact preserves origin t t' distinct changed
  | cons key path =>
      rw [TomlTable.within] at changed
      -- nothing at the key yet, a table, the last of a list of tables, or what cannot be entered
      split at changed
      · obtain ⟨child, _, rfl⟩ := Option.map_eq_some_iff.1 changed
        exact distinct.set key _
      · split at changed
        · cases changed
        · obtain ⟨child, _, rfl⟩ := Option.map_eq_some_iff.1 changed
          exact distinct.set key _
      · obtain ⟨child, _, rfl⟩ := Option.map_eq_some_iff.1 changed
        exact distinct.set key _
      · cases changed

theorem Distinct.insert {path : List String} (distinct : t.Distinct)
    (inserted : t.insert path key v = some t') : t'.Distinct := by
  refine distinct.within inserted ?_
  intro origin s s' distinct added
  split at added
  · cases added
  · split at added
    · cases added
    · next missing =>
        cases added
        exact distinct.concat (Option.not_isSome_iff_eq_none.1 missing) v

theorem Distinct.insertBelow {header path : List String} (distinct : t.Distinct)
    (inserted : t.insertBelow header path key v = some t') : t'.Distinct :=
  distinct.within inserted fun _ _ _ distinct added => distinct.insert added

theorem Distinct.openTable {path : List String} (distinct : t.Distinct)
    (opened : t.openTable path key = some t') : t'.Distinct := by
  refine distinct.within opened ?_
  intro origin s s' distinct added
  split at added
  · cases added
    exact distinct.set key _
  · cases added
    exact distinct.set key _
  · cases added

theorem Distinct.openNext {path : List String} (distinct : t.Distinct)
    (opened : t.openNext path key = some t') : t'.Distinct := by
  refine distinct.within opened ?_
  intro origin s s' distinct added
  split at added
  · cases added
    exact distinct.set key _
  · cases added
    exact distinct.set key _
  · cases added

end TomlTable

namespace Toml

open TomlTable

theorem Draft.distinct_add {d d' : Draft} {line : Line} (distinct : d.table.Distinct)
    (added : d.add line = some d') : d'.table.Distinct := by
  cases line with
  | blank =>
      cases added
      exact distinct
  | opening path name =>
      obtain ⟨t, opened, rfl⟩ := Option.map_eq_some_iff.1 added
      exact distinct.openTable opened
  | openingNext path name =>
      obtain ⟨t, opened, rfl⟩ := Option.map_eq_some_iff.1 added
      exact distinct.openNext opened
  | pair path name v =>
      obtain ⟨t, inserted, rfl⟩ := Option.map_eq_some_iff.1 added
      exact distinct.insertBelow inserted

theorem Draft.distinct_foldlM {lines : List Line} {d d' : Draft} (distinct : d.table.Distinct)
    (added : lines.foldlM Draft.add d = some d') : d'.table.Distinct := by
  induction lines generalizing d with
  | nil =>
      cases added
      exact distinct
  | cons line lines ih =>
      rw [List.foldlM_cons] at added
      obtain ⟨next, first, more⟩ := Option.bind_eq_some_iff.1 added
      exact ih (distinct_add distinct first) more

/-- No key of a document is written twice. -/
theorem distinct_of_ofText? {text : String} {document : TomlTable}
    (spelled : ofText? text = some document) : document.Distinct := by
  rw [ofText?] at spelled
  obtain ⟨lines, _, spelled⟩ := Option.bind_eq_some_iff.1 spelled
  obtain ⟨draft, grown, same⟩ := Option.bind_eq_some_iff.1 spelled
  cases same
  exact Draft.distinct_foldlM (d := ⟨[], []⟩) List.nodup_nil grown

end Toml

end ScriptImports
