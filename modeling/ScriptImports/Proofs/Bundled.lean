import ScriptImports.FileTree.Change
import ScriptImports.Proofs.Readers
import ScriptImports.Proofs.Roots

/-!
The names of the plugins that come with the runtime. A name is reserved for them if it is `plugin_`, a
word of small letters, digits and underscores, and `.mjs`. A name is taken for that of such a plugin
just if it begins with a reserved name, whatever follows, and those names alone are looked for among
the bundled plugins, which is before the library of the user.
-/
namespace ScriptImports

namespace Name

/-- The characters of the word in a reserved name. -/
def IsReservedChar (c : Char) : Prop := 'a' ≤ c ∧ c ≤ 'z' ∨ '0' ≤ c ∧ c ≤ '9' ∨ c = '_'

theorem isBundledChar_iff {c : Char} : isBundledChar c = true ↔ IsReservedChar c := by
  rw [isBundledChar, Bool.or_eq_true, Bool.or_eq_true, isLower_iff, isDigit_iff, beq_iff_eq, or_assoc]
  rfl

/-- What a reserved name is, from its first character to its last. -/
def IsReserved (name : List Char) : Prop :=
  ∃ word, word ≠ [] ∧ (∀ c ∈ word, IsReservedChar c) ∧
    name = "plugin_".toList ++ word ++ ".mjs".toList

theorem isReserved_of_all {word : List Char} (nonempty : word ≠ [])
    (each : word.all isBundledChar = true) :
    IsReserved ("plugin_".toList ++ word ++ ".mjs".toList) :=
  ⟨word, nonempty, fun c hc => isBundledChar_iff.1 (List.all_eq_true.1 each c hc), rfl⟩

/-- A name with a reserved name at its start, and anything behind that. -/
def BeginsReserved (name : List Char) : Prop := ∃ head rest, IsReserved head ∧ name = head ++ rest

theorem IsReserved.begins {name : List Char} (reserved : IsReserved name) : BeginsReserved name :=
  ⟨name, [], reserved, (List.append_nil name).symm⟩

/-- The word ends where the dot of `.mjs` stands. -/
theorem span_word {word : List Char} (each : ∀ c ∈ word, IsReservedChar c) (rest : List Char) :
    (word ++ (".mjs".toList ++ rest)).takeWhile isBundledChar = word ∧
      (word ++ (".mjs".toList ++ rest)).dropWhile isBundledChar = ".mjs".toList ++ rest := by
  apply Text.Reader.span_append fun c hc => isBundledChar_iff.2 (each c hc)
  intro c first
  cases first
  decide

/-- No reserved name goes on as another one. -/
theorem IsReserved.eq_of_append {first second restFirst restSecond : List Char}
    (hfirst : IsReserved first) (hsecond : IsReserved second)
    (same : first ++ restFirst = second ++ restSecond) : first = second := by
  obtain ⟨word, _, each, rfl⟩ := hfirst
  obtain ⟨word', _, each', rfl⟩ := hsecond
  simp only [List.append_assoc, List.append_cancel_left_eq] at same
  rw [← (span_word each restFirst).1, same, (span_word each' restSecond).1]

theorem isBundled_iff {name : String} : isBundled name = true ↔ BeginsReserved name.toList := by
  rw [isBundled, Bool.and_eq_true, Bool.and_eq_true, List.isPrefixOf_iff_prefix,
    List.isPrefixOf_iff_prefix]
  constructor
  · rintro ⟨⟨⟨more, whole⟩, first⟩, rest, ends⟩
    have after : name.toList.drop 7 = more := by rw [← whole]; rfl
    rw [after] at first ends
    refine ⟨_, rest, @isReserved_of_all (more.takeWhile isBundledChar) ?_ List.all_takeWhile, ?_⟩
    · cases more with
      | nil => cases first
      | cons c more =>
          change isBundledChar c = true at first
          rw [List.takeWhile_cons, if_pos first]
          exact List.cons_ne_nil _ _
    · rw [List.append_assoc, List.append_assoc, ends, List.takeWhile_append_dropWhile, whole]
  · rintro ⟨_, rest, ⟨word, nonempty, each, rfl⟩, whole⟩
    have after : name.toList.drop 7 = word ++ (".mjs".toList ++ rest) := by
      rw [whole, List.append_assoc, List.append_assoc]
      rfl
    rw [after, (span_word each rest).2]
    refine ⟨⟨?_, ?_⟩, List.prefix_append _ _⟩
    · rw [whole, List.append_assoc, List.append_assoc]
      exact List.prefix_append _ _
    · obtain ⟨c, word, rfl⟩ := List.exists_cons_of_ne_nil nonempty
      exact isBundledChar_iff.2 (each c List.mem_cons_self)

/-- What follows a reserved name is what makes a name that is taken for one, and is none. -/
theorem begins_not_reserved_iff {name : List Char} :
    BeginsReserved name ∧ ¬ IsReserved name ↔
      ∃ head rest, IsReserved head ∧ rest ≠ [] ∧ name = head ++ rest := by
  constructor
  · rintro ⟨⟨head, rest, reserved, rfl⟩, longer⟩
    refine ⟨head, rest, reserved, ?_, rfl⟩
    rintro rfl
    rw [List.append_nil] at longer
    exact longer reserved
  · rintro ⟨head, rest, reserved, more, rfl⟩
    refine ⟨⟨head, rest, reserved, rfl⟩, fun whole => more ?_⟩
    have same : head ++ rest = head := whole.eq_of_append reserved (List.append_nil _)
    exact List.append_right_eq_self.1 same

end Name

namespace Search

variable {s : Settings} {name : String} {origin : Option Path}

/-- The directories of the bundled plugins come right after that of the importing file, and all else in
a plan is as it is without them. -/
theorem exists_roots (s : Settings) (origin : Option Path) :
    ∃ later, (∀ root ∈ later, root.label ≠ "runtime src" ∧ root.label ≠ "engine src") ∧
      ∀ bundled, roots s bundled origin =
        ⟨"origin directory", originDir s origin⟩ ::
          ((if bundled then
            [⟨"runtime src", s.runtimeSrc.anchor s.workingDir⟩,
             ⟨"engine src", s.engineSrc.anchor s.workingDir⟩]
          else []) ++ later) := by
  refine ⟨(roots s false origin).tail, ?_, fun bundled => by simp [roots]⟩
  intro root hroot
  simp only [roots, Bool.false_eq_true, ↓reduceIte, List.append_nil, List.cons_append,
    List.nil_append, List.tail_cons, List.mem_append, List.mem_cons, List.mem_map,
    List.mem_flatMap, Option.mem_toList, List.not_mem_nil, or_false] at hroot
  rcases hroot with ((⟨_, _, rfl⟩ | rfl | rfl | rfl) | ⟨_, _, rfl | rfl⟩) | ⟨_, _, rfl⟩ <;> simp

/-- The candidates among the bundled plugins are the second and the third one. -/
theorem exists_plan (s : Settings) (name : String) (origin : Option Path) :
    ∃ later, (∀ step ∈ later, step.label ≠ "runtime src" ∧ step.label ≠ "engine src") ∧
      plan s name origin =
        ⟨"origin directory", (originDir s origin).child name⟩ ::
          ((if Name.isBundled name then
            [⟨"runtime src", (s.runtimeSrc.anchor s.workingDir).child name⟩,
             ⟨"engine src", (s.engineSrc.anchor s.workingDir).child name⟩]
          else []) ++ later) := by
  obtain ⟨later, other, roots⟩ := exists_roots s origin
  refine ⟨later.map fun root => root.below name, ?_, ?_⟩
  · simpa only [List.forall_mem_map, SearchStep.below] using other
  · rw [plan_eq_roots, roots]
    cases Name.isBundled name <;> simp [SearchStep.below]

theorem exists_label_plan_iff {label : String} (bundled : label ∈ ["runtime src", "engine src"]) :
    (∃ step ∈ plan s name origin, step.label = label) ↔ Name.isBundled name = true := by
  obtain ⟨later, other, eq⟩ := exists_plan s name origin
  rw [eq]
  constructor
  · rintro ⟨step, hstep, rfl⟩
    by_contra user
    rw [if_neg user, List.nil_append, List.mem_cons] at hstep
    rcases hstep with rfl | hstep
    · exact absurd bundled (by simp)
    · simp [other step hstep] at bundled
  · intro taken
    rw [if_pos taken]
    simp only [List.mem_cons, List.not_mem_nil, or_false] at bundled
    rcases bundled with rfl | rfl
    · exact ⟨_, List.mem_cons_of_mem _ List.mem_cons_self, rfl⟩
    · exact ⟨_, List.mem_cons_of_mem _ (List.mem_cons_of_mem _ List.mem_cons_self), rfl⟩

/-- A name is taken for that of a bundled plugin just if it begins with a reserved name. All reserved
names are taken so, and besides them those that are a reserved name with something behind it. A name
that is taken so is looked for among the bundled plugins, right after the directory of the importing
file, and no other name is looked for there. -/
theorem plan_bundled (s : Settings) (name : String) (origin : Option Path) :
    (Name.isBundled name = true ↔ Name.BeginsReserved name.toList) ∧
    (Name.IsReserved name.toList → Name.isBundled name = true) ∧
    (Name.BeginsReserved name.toList ∧ ¬ Name.IsReserved name.toList ↔
      ∃ head rest, Name.IsReserved head ∧ rest ≠ [] ∧ name.toList = head ++ rest) ∧
    (∀ label ∈ ["runtime src", "engine src"],
      (∃ step ∈ plan s name origin, step.label = label) ↔ Name.BeginsReserved name.toList) ∧
    (Name.BeginsReserved name.toList → ∃ later, plan s name origin =
      ⟨"origin directory", (originDir s origin).child name⟩ ::
      ⟨"runtime src", (s.runtimeSrc.anchor s.workingDir).child name⟩ ::
      ⟨"engine src", (s.engineSrc.anchor s.workingDir).child name⟩ :: later) := by
  refine ⟨Name.isBundled_iff, fun reserved => Name.isBundled_iff.2 reserved.begins,
    Name.begins_not_reserved_iff, fun label bundled => ?_, fun begins => ?_⟩
  · rw [exists_label_plan_iff bundled, Name.isBundled_iff]
  · obtain ⟨later, _, eq⟩ := exists_plan s name origin
    rw [if_pos (Name.isBundled_iff.2 begins)] at eq
    exact ⟨later, eq⟩

/-- A user's library beside an installation of the runtime. -/
def ownLibrary : Settings :=
  { Settings.default (fun _ => none) with
    workingDir := Path.ofString "/work"
    installRoot := Path.ofString "/opt/nako"
    libRoot := some (Path.ofString "/lib") }

theorem plan_bundled_csv :
    Name.IsReserved "plugin_csv_2.mjs".toList ∧ Name.isBundled "plugin_csv_2.mjs" = true ∧
    (∀ label ∈ ["runtime src", "engine src"],
      ∃ step ∈ plan ownLibrary "plugin_csv_2.mjs" none, step.label = label) ∧
    ∃ later, plan ownLibrary "plugin_csv_2.mjs" none =
      ⟨"origin directory", Path.ofString "/work/plugin_csv_2.mjs"⟩ ::
      ⟨"runtime src", Path.ofString "/opt/nako/src/plugin_csv_2.mjs"⟩ ::
      ⟨"engine src", Path.ofString "/opt/nako/core/src/plugin_csv_2.mjs"⟩ :: later := by
  have reserved : Name.IsReserved "plugin_csv_2.mjs".toList :=
    @Name.isReserved_of_all "csv_2".toList (by decide) (by decide)
  obtain ⟨_, taken, _, labelled, planned⟩ := plan_bundled ownLibrary "plugin_csv_2.mjs" none
  exact ⟨reserved, taken reserved,
    fun label bundled => (labelled label bundled).2 reserved.begins, planned reserved.begins⟩

/-- A module of one name in both. -/
def shadowed : FileTree :=
  (FileTree.empty.write (Path.ofString "/lib/plugin_math.mjs.js") (.file "1".toUTF8)).write
    (Path.ofString "/opt/nako/src/plugin_math.mjs.js") (.file "2".toUTF8)

/-- A name that goes on behind a reserved one is looked for among the bundled plugins, which hide the
module in the user's library. -/
theorem search_longer_name :
    ¬ Name.IsReserved "plugin_math.mjs.js".toList ∧
    Name.isBundled "plugin_math.mjs.js" = true ∧
    (∃ step ∈ plan ownLibrary "plugin_math.mjs.js" none, step.label = "runtime src") ∧
    shadowed.isFile (Path.ofString "/lib/plugin_math.mjs.js") = true ∧
    (search ownLibrary .empty shadowed "plugin_math.mjs.js" none).2 =
      some (.path (Path.ofString "/opt/nako/src/plugin_math.mjs.js")) := by
  have taken : Name.isBundled "plugin_math.mjs.js" = true := by decide
  have reserved : Name.IsReserved "plugin_math.mjs".toList :=
    @Name.isReserved_of_all "math".toList (by decide) (by decide)
  refine ⟨?_, taken, (exists_label_plan_iff (by simp)).2 taken, by decide +kernel, by decide +kernel⟩
  exact (Name.begins_not_reserved_iff.2 ⟨_, ".js".toList, reserved, by decide, by decide⟩).2

end Search

end ScriptImports
