import ScriptImports.Proofs.Registered

/-!
The rule of the registry without its table. What a file name gives depends on the last registration of
each name and on nothing else: the names that a flattened URL ends in are suffixes of one text, so that
no two of them have the same size, and it makes no difference in which order they are compared.
-/
namespace ScriptImports.Registry

/-- The module that is registered under a name. -/
def registration (r : Registry) (name : String) : Option Exports := r.plugins.lookup name

/-- What a file name gives, where `known` has the registration of each name: its own registration, or
for a flattened URL that of the longest name it ends in, or nothing. -/
inductive Gives (known : String → Option Exports) (fileName : String) : Option Exports → Prop
  | own {exports : Exports} : known fileName = some exports → Gives known fileName (some exports)
  | ending {name : String} {exports : Exports} : known fileName = none →
    isStagedName fileName = true → known name = some exports →
    '_' :: name.toList <:+ fileName.toList →
    (∀ other, (known other).isSome = true → '_' :: other.toList <:+ fileName.toList →
      other ≠ name → other.utf8ByteSize < name.utf8ByteSize) →
    Gives known fileName (some exports)
  | nothing : known fileName = none →
    (isStagedName fileName = true → ∀ name, '_' :: name.toList <:+ fileName.toList →
      known name = none) →
    Gives known fileName none

section

variable {fileName name other : String}

/-- Of two names that a file name ends in, the one with fewer characters has fewer bytes. -/
theorem utf8ByteSize_lt_of_ending (ends : '_' :: name.toList <:+ fileName.toList)
    (ends' : '_' :: other.toList <:+ fileName.toList)
    (shorter : other.toList.length ≤ name.toList.length) (differ : other ≠ name) :
    other.utf8ByteSize < name.utf8ByteSize :=
  utf8ByteSize_lt_of_suffix
    (List.suffix_of_suffix_length_le ((List.suffix_cons _ _).trans ends')
      ((List.suffix_cons _ _).trans ends) shorter) differ

theorem eq_of_same_size (ends : '_' :: name.toList <:+ fileName.toList)
    (ends' : '_' :: other.toList <:+ fileName.toList)
    (same : name.utf8ByteSize = other.utf8ByteSize) : name = other := by
  by_contra differ
  rcases Nat.le_total name.toList.length other.toList.length with shorter | shorter
  · exact absurd same (Nat.ne_of_lt (utf8ByteSize_lt_of_ending ends' ends shorter differ))
  · exact absurd same.symm
      (Nat.ne_of_lt (utf8ByteSize_lt_of_ending ends ends' shorter (Ne.symm differ)))

end

variable {r : Registry} {fileName : String}

theorem contains_iff {name : String} :
    r.contains name = true ↔ (r.registration name).isSome = true := Iff.rfl

theorem Chooses.gives {name : String} {exports : Exports}
    (chooses : r.Chooses fileName name exports) :
    Gives r.registration fileName (some exports) := by
  cases own : r.registration fileName with
  | some exports' =>
      have chooses' : r.Chooses fileName fileName exports' :=
        ⟨own, Or.inl rfl, fun other _ stands => stands.suffix.length_le⟩
      rw [(chooses.unique chooses').2]
      exact .own own
  | none =>
      obtain rfl | ⟨staged, ends⟩ := chooses.stands
      · rw [registration, chooses.registered] at own
        cases own
      · rw [endsInName_iff] at ends
        refine .ending own staged chooses.registered ends fun other known ends' differ => ?_
        have shorter := chooses.longest other known (Or.inr ⟨staged, endsInName_iff.2 ends'⟩)
        exact utf8ByteSize_lt_of_ending ends ends' shorter differ

theorem Gives.chooses {exports : Exports}
    (gives : Gives r.registration fileName (some exports)) :
    ∃ name, r.Chooses fileName name exports := by
  cases gives with
  | own own =>
      exact ⟨fileName, own, Or.inl rfl, fun other _ stands => stands.suffix.length_le⟩
  | @ending name _ unknown staged registered ends smaller =>
      refine ⟨name, registered, Or.inr ⟨staged, endsInName_iff.2 ends⟩, fun other known stands => ?_⟩
      obtain rfl | ⟨_, ends'⟩ := stands
      · rw [contains_iff, unknown] at known
        cases known
      · rw [endsInName_iff] at ends'
        by_contra longer
        have differ : other ≠ name := by
          rintro rfl
          exact longer (Nat.le_refl _)
        have larger := utf8ByteSize_lt_of_ending ends' ends (Nat.le_of_not_le longer) differ.symm
        exact absurd (smaller other known ends' differ) (Nat.lt_asymm larger)

theorem gives_none_iff : Gives r.registration fileName none ↔ r.lookup fileName = none := by
  rw [lookup_eq_none_iff]
  constructor
  · intro gives name known stands
    cases gives with
    | nothing unknown unmatched =>
        obtain rfl | ⟨staged, ends⟩ := stands
        · rw [contains_iff, unknown] at known
          cases known
        · rw [contains_iff, unmatched staged name (endsInName_iff.1 ends)] at known
          cases known
  · intro unmatched
    have unknown {name : String} (stands : StandsFor fileName name) :
        r.registration name = none := by
      rw [← Option.not_isSome_iff_eq_none]
      exact fun known => unmatched name known stands
    exact .nothing (unknown (Or.inl rfl))
      fun staged name ends => unknown (Or.inr ⟨staged, endsInName_iff.2 ends⟩)

/-- The registry follows the rule. -/
theorem lookup_eq_iff_gives {found : Option Exports} :
    r.lookup fileName = found ↔ Gives r.registration fileName found := by
  cases found with
  | none => exact gives_none_iff.symm
  | some exports =>
      rw [lookup_eq_some_iff]
      exact ⟨fun ⟨_, chooses⟩ => chooses.gives, Gives.chooses⟩

/-- Two registries that have the same registration of each name look up alike. -/
theorem lookup_congr {r r' : Registry} (same : ∀ name, r.registration name = r'.registration name)
    (fileName : String) : r.lookup fileName = r'.lookup fileName := by
  rw [lookup_eq_iff_gives, funext same, ← lookup_eq_iff_gives]

theorem registration_of_perm {r r' : Registry} (perm : r.plugins.Perm r'.plugins) (name : String) :
    r.registration name = r'.registration name := by
  apply Option.ext
  intro exports
  rw [registration, registration, ← mem_plugins_iff, ← mem_plugins_iff, perm.mem_iff]

/-- The registry after some registrations, the first of them first. -/
def registerAll (r : Registry) (history : List (String × Exports)) : Registry :=
  history.foldl (fun r added => r.register added.1 added.2) r

theorem registration_registerAll (r : Registry) (history : List (String × Exports))
    (name : String) :
    (r.registerAll history).registration name =
      (history.reverse.lookup name).or (r.registration name) := by
  induction history generalizing r with
  | nil => rfl
  | cons added history ih =>
      have first : (r.register added.1 added.2).registration name =
          ([added].lookup name).or (r.registration name) := by
        rw [registration, lookup_register, List.lookup_cons]
        by_cases here : name = added.1
        · rw [if_pos here, beq_iff_eq.2 here]
          rfl
        · rw [if_neg here, beq_false_of_ne here]
          rfl
      rw [registerAll, List.foldl_cons, ← registerAll, ih, first, List.reverse_cons,
        List.lookup_append, Option.or_assoc]

/-- A lookup gives the registration of the file name itself, or for a staged file that of the longest
registered name which the file name ends in after an underscore. No two such names have one size, so
the order of the table is of no effect, and of a history of registrations only the last one of each
name is. -/
theorem lookup_unordered (r : Registry) (fileName : String) :
    (∀ found, r.lookup fileName = found ↔ Gives r.registration fileName found) ∧
    (∀ name other : String, '_' :: name.toList <:+ fileName.toList →
      '_' :: other.toList <:+ fileName.toList → name.utf8ByteSize = other.utf8ByteSize →
        name = other) ∧
    (∀ r' : Registry, r'.plugins.Perm r.plugins → r'.lookup fileName = r.lookup fileName) ∧
    ∀ history history' : List (String × Exports),
      (∀ name, history.reverse.lookup name = history'.reverse.lookup name) →
        (r.registerAll history).lookup fileName = (r.registerAll history').lookup fileName := by
  refine ⟨fun _ => lookup_eq_iff_gives, fun _ _ => eq_of_same_size, ?_, ?_⟩
  · exact fun r' perm => lookup_congr (registration_of_perm perm) fileName
  · intro history history' last
    apply lookup_congr
    intro name
    rw [registration_registerAll, registration_registerAll, last]

/-- A module that is registered, registered again after another one, and looked up in a table that is
the other way round. -/
theorem lookup_unordered_twoPlugins :
    (⟨World.twoPlugins.plugins.reverse, by decide⟩ : Registry).lookup "https___h_my_plugin.js" =
      World.twoPlugins.lookup "https___h_my_plugin.js" ∧
    (∀ other : String, '_' :: other.toList <:+ "https___h_my_plugin.js".toList →
      other.utf8ByteSize = 12 → other = "my_plugin.js") ∧
    (empty.registerAll [("plugin.js", ⟨"old", []⟩), ("my_plugin.js", ⟨"my plugin", []⟩),
        ("plugin.js", ⟨"plugin", []⟩)]).lookup "https___h_my_plugin.js" =
      (empty.registerAll [("plugin.js", ⟨"plugin", []⟩),
        ("my_plugin.js", ⟨"my plugin", []⟩)]).lookup "https___h_my_plugin.js" := by
  obtain ⟨_, sizes, orders, _⟩ := lookup_unordered World.twoPlugins "https___h_my_plugin.js"
  obtain ⟨_, _, _, histories⟩ := lookup_unordered empty "https___h_my_plugin.js"
  refine ⟨orders _ (List.reverse_perm _), fun other ends size => ?_, histories _ _ fun name => ?_⟩
  · exact sizes other "my_plugin.js" ends (by decide) (size.trans (by decide))
  · by_cases plugin : name = "plugin.js"
    · rw [plugin]
      rfl
    · simp [List.lookup_cons, beq_false_of_ne plugin]

end ScriptImports.Registry
