import ScriptImports.Name
import ScriptImports.Proofs.Paths

/-!
What the form and the suffix of a name say about paths that are made from it. A bare name is a single
segment or empty. A path has the suffix of the name that it was made from, whatever directory that
was put in, and what ends in a slash has none. Where the extensions leave no doubt, a name has a
suffix just if it is a stem, a dot, an extension, and perhaps one `.txt` that is passed over.
-/
namespace ScriptImports.Name

theorem isLower_iff {c : Char} : c.isLower = true ↔ 'a' ≤ c ∧ c ≤ 'z' :=
  Bool.and_eq_true_iff.trans (and_congr decide_eq_true_iff decide_eq_true_iff)

theorem isDigit_iff {c : Char} : c.isDigit = true ↔ '0' ≤ c ∧ c ≤ '9' :=
  Bool.and_eq_true_iff.trans (and_congr decide_eq_true_iff decide_eq_true_iff)

theorem form_eq_url_iff {name : String} : form name = .url ↔ isUrl name = true := by
  rw [form]
  split
  · next url => simp [url]
  · next other =>
      split
      · simp [other]
      · split <;> simp [other]

theorem slash_mem_of_isUrl {name : String} (url : isUrl name = true) : '/' ∈ name.toList := by
  rw [isUrl, Bool.or_eq_true, List.isPrefixOf_iff_prefix, List.isPrefixOf_iff_prefix] at url
  cases url with
  | inl http => exact http.subset (by decide)
  | inr https => exact https.subset (by decide)

/-- However an absolute name starts, there is a separator in it. -/
theorem separator_mem_of_isAbsolute {name : String} (absolute : isAbsolute name = true) :
    '/' ∈ name.toList ∨ '\\' ∈ name.toList := by
  rw [isAbsolute, Bool.or_eq_true, Bool.or_eq_true, List.isPrefixOf_iff_prefix,
    List.isPrefixOf_iff_prefix] at absolute
  rcases absolute with (root | scheme) | drive
  · exact Or.inl (root.subset (by decide))
  · exact Or.inl (scheme.subset (by decide))
  · unfold hasDrive at drive
    split at drive
    · next marker => simp [marker]
    · cases drive

/-- The bare names are those without a separator and without a dot at the start. -/
theorem form_eq_bare_iff {name : String} :
    form name = .bare ↔
      name.toList.head? ≠ some '.' ∧ '/' ∉ name.toList ∧ '\\' ∉ name.toList := by
  rw [form]
  split
  · next url => simp [slash_mem_of_isUrl url]
  split
  · next absolute =>
      have separator := separator_mem_of_isAbsolute absolute
      simp only [reduceCtorEq, false_iff, not_and, Classical.not_not]
      exact fun _ plain => separator.resolve_left plain
  split
  · next relative =>
      simp only [reduceCtorEq, false_iff, not_and, Classical.not_not]
      exact fun dot plain => (relative.resolve_left dot).resolve_left plain
  · next plain => simpa [not_or] using plain

theorem isName_of_form_eq_bare {name : String} (bare : form name = .bare) (some : name ≠ "") :
    Path.IsName (.ofString name) := by
  obtain ⟨dot, slash, _⟩ := form_eq_bare_iff.1 bare
  refine ⟨by simpa using some, ?_, by simpa using slash⟩
  intro here
  have one : name.toList = ['.'] := by
    rw [← PathText.map_shown_ofString, here]
    rfl
  exact dot (by rw [one, List.head?_cons])

/-! Suffixes. -/

theorem splitLastDot_eq_none_iff {cs : List Char} : splitLastDot cs = none ↔ '.' ∉ cs := by
  induction cs with
  | nil => simp [splitLastDot]
  | cons c cs ih =>
      rw [splitLastDot, List.mem_cons, not_or, ← ih]
      cases splitLastDot cs with
      | some cut => simp
      | none => simp [eq_comm]

theorem splitLastDot_eq_some_iff {cs stem suffix : List Char} :
    splitLastDot cs = some (stem, suffix) ↔ cs = stem ++ '.' :: suffix ∧ '.' ∉ suffix := by
  constructor
  · intro h
    induction cs generalizing stem with
    | nil => cases h
    | cons c cs ih =>
        rw [splitLastDot] at h
        split at h
        · next more suffix' later =>
            cases h
            obtain ⟨whole, last⟩ := ih later
            exact ⟨by rw [whole, List.cons_append], last⟩
        · next later =>
            split at h
            · next dot =>
                cases h
                exact ⟨by rw [dot, List.nil_append], splitLastDot_eq_none_iff.1 later⟩
            · cases h
  · rintro ⟨rfl, last⟩
    induction stem with
    | nil => simp [splitLastDot, splitLastDot_eq_none_iff.2 last]
    | cons c stem ih => simp [splitLastDot, ih]

/-- A text has a suffix if the suffix, with a dot before it and something before that, is what it
ends in. -/
theorem hasExtension_iff {cs : List Char} {extensions : List String} :
    hasExtension cs extensions false = true ↔
      ∃ stem, ∃ e ∈ extensions, stem ≠ [] ∧ '.' ∉ e.toList ∧ '/' ∉ e.toList ∧ '\\' ∉ e.toList ∧
        cs = stem ++ '.' :: e.toList := by
  rw [hasExtension, if_neg (by simp)]
  constructor
  · intro h
    split at h
    · next stem suffix cut =>
        simp only [Bool.and_eq_true, bne_iff_ne, Bool.not_eq_true', List.contains_eq_mem,
          decide_eq_false_iff_not, List.any_eq_true, beq_iff_eq] at h
        obtain ⟨⟨⟨some, slash⟩, backslash⟩, e, known, rfl⟩ := h
        obtain ⟨whole, last⟩ := splitLastDot_eq_some_iff.1 cut
        exact ⟨stem, e, known, some, last, slash, backslash, whole⟩
    · cases h
  · rintro ⟨stem, e, known, some, last, slash, backslash, rfl⟩
    rw [splitLastDot_eq_some_iff.2 ⟨rfl, last⟩]
    simp only [Bool.and_eq_true, bne_iff_ne, Bool.not_eq_true', List.contains_eq_mem,
      decide_eq_false_iff_not, List.any_eq_true, beq_iff_eq]
    exact ⟨⟨⟨some, slash⟩, backslash⟩, e, known, rfl⟩

/-- What has a suffix does not end in a slash. -/
theorem getLast?_suffix_ne (stem : List Char) {suffix : List Char} (plain : '/' ∉ suffix) :
    (stem ++ '.' :: suffix).getLast? ≠ some '/' := by
  intro ends
  rw [List.getLast?_append, List.getLast?_cons, Option.some_or, Option.some.injEq] at ends
  cases last : suffix.getLast? with
  | none => simp [last] at ends
  | some c =>
      rw [last, Option.getD_some] at ends
      exact plain (ends ▸ List.mem_of_getLast? last)

theorem hasExtension_of_slash {cs : List Char} (slash : cs.getLast? = some '/')
    (extensions : List String) : hasExtension cs extensions false = false := by
  rw [← Bool.not_eq_true, hasExtension_iff]
  rintro ⟨stem, e, _, _, _, plain, _, rfl⟩
  exact getLast?_suffix_ne stem plain slash

/-- Whether a name has a suffix does not hang on the directory that it is put in. -/
theorem hasExtension_append {dir name : List Char} (ends : dir = [] ∨ dir.getLast? = some '/')
    (dot : name.head? ≠ some '.') (extensions : List String) :
    hasExtension (dir ++ name) extensions false = hasExtension name extensions false := by
  rw [Bool.eq_iff_iff, hasExtension_iff, hasExtension_iff]
  constructor
  · rintro ⟨stem, e, known, _, last, slash, backslash, whole⟩
    rcases List.append_eq_append_iff.1 whole with ⟨below, _, named⟩ | ⟨more, above, named⟩
    · refine ⟨below, e, known, ?_, last, slash, backslash, named⟩
      rintro rfl
      exact dot (by rw [named]; rfl)
    · cases more with
      | nil => exact absurd (by rw [← List.nil_append name, ← named]; rfl) dot
      | cons c more =>
          rw [List.cons_append, List.cons.injEq] at named
          obtain ⟨rfl, inside⟩ := named
          have plain : '/' ∉ more := fun h => slash (by rw [inside]; exact List.mem_append_left _ h)
          rcases ends with nothing | ends
          · rw [nothing] at above
            simp at above
          · rw [above] at ends
            exact absurd ends (getLast?_suffix_ne stem plain)
  · rintro ⟨stem, e, known, some, last, slash, backslash, rfl⟩
    refine ⟨dir ++ stem, e, known, ?_, last, slash, backslash, ?_⟩
    · rw [Ne, List.append_eq_nil_iff, not_and]
      exact fun _ => some
    · rw [List.append_assoc]

theorem hasExtension_child (dir : Path) {name : String} (bare : form name = .bare)
    (extensions : List String) :
    hasExtension (dir.child name).toString.toList extensions false =
      hasExtension name.toList extensions false := by
  obtain ⟨dot, slash, _⟩ := form_eq_bare_iff.1 bare
  obtain ⟨above, ends, chars⟩ := dir.child_chars slash
  have shown : above.map PathChar.shown = [] ∨
      (above.map PathChar.shown).getLast? = some '/' := by
    rw [List.map_eq_nil_iff, List.getLast?_map]
    exact ends.imp_right fun slash => by rw [slash, Option.map_some, PathChar.shown]
  rw [Path.toString, PathText.toList_shown, chars, List.map_append, PathText.map_shown_ofString,
    hasExtension_append shown dot]

/-! Suffixes with a `.txt` behind them. -/

theorem hasExtension_dropTxt (cs : List Char) (extensions : List String) :
    hasExtension cs extensions true = hasExtension (dropTxt cs) extensions false := by
  rw [hasExtension, hasExtension, if_pos rfl, if_neg Bool.false_ne_true]

theorem dropTxt_append (above : List Char) : dropTxt (above ++ ".txt".toList) = above := by
  rw [dropTxt, if_pos (List.isSuffixOf_iff_suffix.2 (List.suffix_append _ _)), List.length_append]
  exact List.take_left

theorem dropTxt_of_not_suffix {cs : List Char} (other : ¬ ".txt".toList <:+ cs) :
    dropTxt cs = cs := by
  rw [dropTxt, if_neg (by rwa [List.isSuffixOf_iff_suffix])]

/-- A text that ends in `.txt` has `txt` behind its last dot. -/
theorem eq_txt_of_suffix {stem : List Char} {e : String} (last : '.' ∉ e.toList)
    (ends : ".txt".toList <:+ stem ++ '.' :: e.toList) : e = "txt" := by
  obtain ⟨above, whole⟩ := ends
  have cut : splitLastDot (stem ++ '.' :: e.toList) = some (above, "txt".toList) :=
    splitLastDot_eq_some_iff.2 ⟨whole.symm, by decide⟩
  rw [splitLastDot_eq_some_iff.2 ⟨rfl, last⟩] at cut
  rw [Option.some.injEq, Prod.mk.injEq] at cut
  exact String.toList_inj.1 cut.2

theorem dropTxt_prefix (cs : List Char) : dropTxt cs <+: cs := by
  rw [dropTxt]
  split
  · exact List.take_prefix _ _
  · exact List.prefix_rfl

/-- The `.txt` belongs to the last segment. -/
theorem dropTxt_slash (dir name : List Char) :
    dropTxt (dir ++ '/' :: name) = dir ++ '/' :: dropTxt name := by
  by_cases ends : ".txt".toList <:+ name
  · obtain ⟨above, rfl⟩ := ends
    rw [dropTxt_append, ← List.cons_append, ← List.append_assoc, dropTxt_append]
  · rw [dropTxt_of_not_suffix ends, dropTxt_of_not_suffix]
    intro whole
    cases List.suffix_or_suffix_of_suffix whole (List.suffix_append dir ('/' :: name)) with
    | inl within =>
        cases List.suffix_cons_iff.1 within with
        | inl same => exact absurd (same ▸ List.mem_cons_self) (by decide : '/' ∉ ".txt".toList)
        | inr later => exact ends later
    | inr around => exact absurd (around.subset List.mem_cons_self) (by decide)

/-- A suffix is that of the last segment, also where `.txt` is passed over. -/
theorem hasExtension_slash (dir : List Char) {name : List Char} (dot : name.head? ≠ some '.')
    (extensions : List String) (allowTxt : Bool) :
    hasExtension (dir ++ '/' :: name) extensions allowTxt =
      hasExtension name extensions allowTxt := by
  have inside {name : List Char} (dot : name.head? ≠ some '.') :
      hasExtension (dir ++ '/' :: name) extensions false = hasExtension name extensions false := by
    rw [← List.singleton_append, ← List.append_assoc, hasExtension_append (by simp) dot]
  cases allowTxt with
  | false => exact inside dot
  | true =>
      rw [hasExtension_dropTxt, hasExtension_dropTxt, dropTxt_slash]
      apply inside
      intro first
      obtain ⟨more, whole⟩ := dropTxt_prefix name
      exact dot (by rw [← whole, List.head?_append, first, Option.some_or])

/-- An extension that leaves no doubt how a name is read: there is neither a dot nor a separator in it,
and it is not the `txt` that may be passed over. -/
structure IsExtension (e : String) : Prop where
  ne_txt : e ≠ "txt"
  dot : '.' ∉ e.toList
  slash : '/' ∉ e.toList
  backslash : '\\' ∉ e.toList

section

variable {cs : List Char} {extensions : List String} (each : ∀ e ∈ extensions, IsExtension e)

include each

theorem hasExtension_iff_stem :
    hasExtension cs extensions false = true ↔
      ∃ stem, ∃ e ∈ extensions, stem ≠ [] ∧ cs = stem ++ '.' :: e.toList := by
  rw [hasExtension_iff]
  constructor
  · rintro ⟨stem, e, known, some, _, _, _, whole⟩
    exact ⟨stem, e, known, some, whole⟩
  · rintro ⟨stem, e, known, some, whole⟩
    obtain ⟨_, dot, slash, backslash⟩ := each e known
    exact ⟨stem, e, known, some, dot, slash, backslash, whole⟩

/-- The two forms exclude each other, since nothing that is listed is `txt`. -/
theorem hasExtension_iff_stem_txt :
    hasExtension cs extensions true = true ↔
      ∃ stem, ∃ e ∈ extensions, stem ≠ [] ∧
        (cs = stem ++ '.' :: e.toList ∨ cs = stem ++ '.' :: e.toList ++ ".txt".toList) := by
  rw [hasExtension_dropTxt, hasExtension_iff_stem each]
  by_cases ends : ".txt".toList <:+ cs
  · obtain ⟨above, rfl⟩ := ends
    rw [dropTxt_append]
    constructor
    · rintro ⟨stem, e, known, some, rfl⟩
      exact ⟨stem, e, known, some, Or.inr rfl⟩
    · rintro ⟨stem, e, known, some, whole | whole⟩
      · exact absurd (eq_txt_of_suffix (each e known).dot ⟨above, whole⟩) (each e known).ne_txt
      · exact ⟨stem, e, known, some, List.append_cancel_right whole⟩
  · rw [dropTxt_of_not_suffix ends]
    constructor
    · rintro ⟨stem, e, known, some, whole⟩
      exact ⟨stem, e, known, some, Or.inl whole⟩
    · rintro ⟨stem, e, known, some, whole | whole⟩
      · exact ⟨stem, e, known, some, whole⟩
      · exact absurd ⟨_, whole.symm⟩ ends

end

/-- Where the extensions leave no doubt, a name has one of them just if it is a stem, a dot and the
extension, with `.txt` behind it where that is passed over. Whether a name has a suffix does not hang
on the directory that is written before it. -/
theorem hasExtension_grammar (extensions : List String) :
    ((∀ e ∈ extensions, IsExtension e) → ∀ name : List Char,
      (hasExtension name extensions true = true ↔
        ∃ stem, ∃ e ∈ extensions, stem ≠ [] ∧
          (name = stem ++ '.' :: e.toList ∨ name = stem ++ '.' :: e.toList ++ ".txt".toList)) ∧
      (hasExtension name extensions false = true ↔
        ∃ stem, ∃ e ∈ extensions, stem ≠ [] ∧ name = stem ++ '.' :: e.toList)) ∧
    ∀ (dir name : List Char) (allowTxt : Bool), name.head? ≠ some '.' →
      hasExtension (dir ++ '/' :: name) extensions allowTxt =
        hasExtension name extensions allowTxt :=
  ⟨fun each _ => ⟨hasExtension_iff_stem_txt each, hasExtension_iff_stem each⟩,
    fun dir _ allowTxt dot => hasExtension_slash dir dot extensions allowTxt⟩

/-- The empty extension is that of names with a dot at their end. -/
theorem hasExtension_grammar_dots :
    (∀ e ∈ ["js", ""], IsExtension e) ∧
    (∃ stem, ∃ e ∈ ["js", ""], stem ≠ [] ∧
      ("a.txt..txt".toList = stem ++ '.' :: e.toList ∨
        "a.txt..txt".toList = stem ++ '.' :: e.toList ++ ".txt".toList)) ∧
    (¬ ∃ stem, ∃ e ∈ ["js", ""], stem ≠ [] ∧ ".js".toList = stem ++ '.' :: e.toList) ∧
    hasExtension ("x.js".toList ++ '/' :: "lib.txt".toList) ["js", ""] true =
      hasExtension "lib.txt".toList ["js", ""] true := by
  have each : ∀ e ∈ ["js", ""], IsExtension e := by
    simp only [List.mem_cons, List.not_mem_nil, or_false, forall_eq_or_imp, forall_eq]
    exact ⟨⟨by decide, by decide, by decide, by decide⟩, ⟨by decide, by decide, by decide, by decide⟩⟩
  obtain ⟨grammar, below⟩ := hasExtension_grammar ["js", ""]
  refine ⟨each, (grammar each _).1.1 (by decide), ?_, below _ _ true (by decide)⟩
  rw [← (grammar each _).2]
  decide

end ScriptImports.Name
