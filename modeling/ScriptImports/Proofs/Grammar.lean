import ScriptImports.Statement

/-!
The grammar of import statements. Where a statement starts there is only one way to read it, so that
the statements of a line are settled by the grammar alone: they lie apart, and whatever could be read
as a statement starts inside of one of them.
-/
namespace ScriptImports.Statement

theorem isBang_iff {c : Char} : isBang c = true ↔ c ∈ ['!', '！'] := by simp [isBang]

theorem isOpening_iff {c : Char} : isOpening c = true ↔ c ∈ ['「', '『', '"'] := by
  simp [isOpening, or_assoc]

theorem isClosing_iff {c : Char} : isClosing c = true ↔ c ∈ ['」', '』', '"'] := by
  simp [isClosing, or_assoc]

theorem isNameChar_iff {c : Char} :
    isNameChar c = true ↔ c ∉ ['」', '』', '"', '\r', '\n'] := by
  simp [isNameChar, isClosing, and_assoc]

def optional (c : Char) (present : Bool) : List Char := if present then [c] else []

/-- An import statement as it is written. -/
structure Spelling where
  bang : Char
  beforeName : List Char
  opening : Char
  name : List Char
  closing : Char
  afterName : List Char
  /-- Whether `を` follows the name. -/
  particle : Bool
  beforeVerb : List Char
  /-- Whether `り` stands inside of the verb. -/
  ending : Bool
  bang_mem : bang ∈ ['!', '！']
  opening_mem : opening ∈ ['「', '『', '"']
  closing_mem : closing ∈ ['」', '』', '"']
  name_ne_nil : name ≠ []
  name_chars : ∀ c ∈ name, c ∉ ['」', '』', '"', '\r', '\n']
  beforeName_blank : ∀ c ∈ beforeName, Text.isBlank c = true
  afterName_blank : ∀ c ∈ afterName, Text.isBlank c = true
  beforeVerb_blank : ∀ c ∈ beforeVerb, Text.isBlank c = true

namespace Spelling

/-- What follows the closing quote. -/
def verb (w : Spelling) : List Char :=
  w.afterName ++ (optional 'を' w.particle ++
    (w.beforeVerb ++ '取' :: (optional 'り' w.ending ++ ['込'])))

def text (w : Spelling) : List Char :=
  w.bang :: (w.beforeName ++ w.opening :: (w.name ++ w.closing :: w.verb))

theorem length_text_pos (w : Spelling) : 0 < w.text.length := by
  simp [text]

end Spelling

/-! Reading what is written. -/

theorem skipBlank_append {gap : List Char} (blank : ∀ c ∈ gap, Text.isBlank c = true)
    {c : Char} (other : Text.isBlank c = false) (rest : List Char) :
    skipBlank (gap ++ c :: rest) = c :: rest := by
  rw [skipBlank, List.dropWhile_append_of_pos blank, List.dropWhile_cons_of_neg (by simp [other])]

theorem skip_optional (c : Char) (present : Bool) {d : Char} (other : d ≠ c) (rest : List Char) :
    skip c (optional c present ++ d :: rest) = d :: rest := by
  cases present <;> simp [optional, skip, other]

/-- Without the particle the two gaps are one. -/
theorem skipBlank_particle (w : Spelling) (rest : List Char) :
    skipBlank (skip 'を' (skipBlank
      (w.afterName ++ (optional 'を' w.particle ++ (w.beforeVerb ++ '取' :: rest))))) =
      '取' :: rest := by
  have verb : Text.isBlank '取' = false := by decide
  cases w.particle with
  | true =>
      have particle : Text.isBlank 'を' = false := by decide
      simp only [optional, ↓reduceIte, List.singleton_append,
        skipBlank_append w.afterName_blank particle, skip,
        skipBlank_append w.beforeVerb_blank verb]
  | false =>
      have gaps : ∀ c ∈ w.afterName ++ w.beforeVerb, Text.isBlank c = true := by
        simp only [List.mem_append]
        rintro c (hc | hc)
        · exact w.afterName_blank c hc
        · exact w.beforeVerb_blank c hc
      have other : '取' ≠ 'を' := by decide
      have stays : skipBlank ('取' :: rest) = '取' :: rest :=
        @skipBlank_append [] nofun '取' verb rest
      simp only [optional, Bool.false_eq_true, ↓reduceIte, List.nil_append, ← List.append_assoc,
        skipBlank_append gaps verb, skip, if_neg other, stays]

theorem readVerb?_verb (w : Spelling) (rest : List Char) :
    readVerb? (w.verb ++ rest) = some rest := by
  have ending : skip 'り' (optional 'り' w.ending ++ '込' :: rest) = '込' :: rest :=
    skip_optional 'り' w.ending (by decide) rest
  simp only [Spelling.verb, List.append_assoc, List.cons_append, List.nil_append, readVerb?,
    skipBlank_particle, ending]

theorem read?_text (w : Spelling) (rest : List Char) :
    read? (w.text ++ rest) = some (w.name, rest) := by
  have bang : isBang w.bang = true := isBang_iff.2 w.bang_mem
  have opening : isOpening w.opening = true := isOpening_iff.2 w.opening_mem
  have notBlank : Text.isBlank w.opening = false := by
    have quote := w.opening_mem
    simp only [List.mem_cons, List.not_mem_nil, or_false] at quote
    rcases quote with quote | quote | quote <;> rw [quote] <;> decide
  have closing : isClosing w.closing = true := isClosing_iff.2 w.closing_mem
  have chars : ∀ c ∈ w.name, isNameChar c = true :=
    fun c hc => isNameChar_iff.2 (w.name_chars c hc)
  have last : isNameChar w.closing = false := by simp [isNameChar, closing]
  simp only [Spelling.text, List.cons_append, List.append_assoc, read?, bang, ↓reduceIte,
    skipBlank_append w.beforeName_blank notBlank, readQuoted?, opening]
  simp only [List.takeWhile_append_of_pos chars, List.dropWhile_append_of_pos chars,
    List.takeWhile_cons, List.dropWhile_cons, last]
  simp [closing, w.name_ne_nil, readVerb?_verb]

/-! Writing what was read. -/

theorem exists_blank (cs : List Char) :
    ∃ gap, (∀ c ∈ gap, Text.isBlank c = true) ∧ cs = gap ++ skipBlank cs :=
  ⟨cs.takeWhile Text.isBlank, fun c hc => List.all_eq_true.1 List.all_takeWhile c hc,
    List.takeWhile_append_dropWhile.symm⟩

theorem exists_optional (c : Char) (cs : List Char) :
    ∃ present, cs = optional c present ++ skip c cs := by
  fun_cases skip c cs with
  | case1 => exact ⟨false, rfl⟩
  | case2 cs => exact ⟨true, rfl⟩
  | case3 d cs => exact ⟨false, rfl⟩

theorem eq_of_readVerb? {cs rest : List Char} (h : readVerb? cs = some rest) :
    ∃ afterName particle beforeVerb ending,
      (∀ c ∈ afterName, Text.isBlank c = true) ∧ (∀ c ∈ beforeVerb, Text.isBlank c = true) ∧
      cs = afterName ++ (optional 'を' particle ++
        (beforeVerb ++ '取' :: (optional 'り' ending ++ '込' :: rest))) := by
  rw [readVerb?] at h
  split at h
  · next verb starts =>
      split at h
      · next rest' ends =>
          cases h
          obtain ⟨afterName, blank, whole⟩ := exists_blank cs
          obtain ⟨particle, taken⟩ := exists_optional 'を' (skipBlank cs)
          obtain ⟨beforeVerb, blank', verbatim⟩ := exists_blank (skip 'を' (skipBlank cs))
          obtain ⟨ending, taken'⟩ := exists_optional 'り' verb
          refine ⟨afterName, particle, beforeVerb, ending, blank, blank', ?_⟩
          rw [← ends, ← taken', ← starts, ← verbatim, ← taken, ← whole]
      · cases h
  · cases h

theorem eq_of_readQuoted? {cs name rest : List Char} (h : readQuoted? cs = some (name, rest)) :
    ∃ opening closing after, isOpening opening = true ∧ isClosing closing = true ∧ name ≠ [] ∧
      (∀ c ∈ name, isNameChar c = true) ∧ cs = opening :: (name ++ closing :: after) ∧
      readVerb? after = some rest := by
  cases cs with
  | nil => cases h
  | cons c cs =>
      rw [readQuoted?] at h
      split at h
      · next opening =>
          dsimp only at h
          split at h
          · cases h
          next d after left =>
          split at h
          · next closes =>
              obtain ⟨rest', verb, same⟩ := Option.map_eq_some_iff.1 h
              cases same
              simp only [Bool.and_eq_true, bne_iff_ne] at closes
              refine ⟨c, d, after, opening, closes.1, closes.2,
                fun x hx => List.all_eq_true.1 List.all_takeWhile x hx, ?_, verb⟩
              rw [← left, List.takeWhile_append_dropWhile]
          · cases h
      · cases h

theorem exists_spelling {cs name rest : List Char} (h : read? cs = some (name, rest)) :
    ∃ w : Spelling, w.name = name ∧ cs = w.text ++ rest := by
  cases cs with
  | nil => cases h
  | cons bang cs =>
      rw [read?] at h
      split at h
      · next bangs =>
          obtain ⟨opening, closing, after, opens, closes, some, chars, quoted, verb⟩ :=
            eq_of_readQuoted? h
          obtain ⟨beforeName, blank, whole⟩ := exists_blank cs
          obtain ⟨afterName, particle, beforeVerb, ending, blank', blank'', spelled⟩ :=
            eq_of_readVerb? verb
          refine ⟨
            { bang, beforeName, opening, name, closing, afterName, particle, beforeVerb, ending
              bang_mem := isBang_iff.1 bangs
              opening_mem := isOpening_iff.1 opens
              closing_mem := isClosing_iff.1 closes
              name_ne_nil := some
              name_chars := fun c hc => isNameChar_iff.1 (chars c hc)
              beforeName_blank := blank
              afterName_blank := blank'
              beforeVerb_blank := blank'' }, rfl, ?_⟩
          rw [whole, quoted, spelled]
          simp only [Spelling.text, Spelling.verb, List.cons_append, List.append_assoc,
            List.nil_append]
      · cases h

theorem read?_eq_some_iff {cs name rest : List Char} :
    read? cs = some (name, rest) ↔ ∃ w : Spelling, w.name = name ∧ cs = w.text ++ rest := by
  refine ⟨exists_spelling, ?_⟩
  rintro ⟨w, rfl, rfl⟩
  exact read?_text w rest

/-! The statements of a text. -/

/-- `o` is a place where a statement can be read in a text whose first character stands at
`start`. -/
def Occurs (start : Nat) (cs : List Char) (o : Occurrence) : Prop :=
  ∃ (w : Spelling) (before after : List Char), cs = before ++ (w.text ++ after) ∧
    o = ⟨start + before.length, w.text.length, w.name⟩

/-- `spans` are statements apart from each other, from left to right, and each place where a statement
can be read starts inside of one of them. -/
structure Covers (start : Nat) (cs : List Char) (spans : List Occurrence) : Prop where
  occur : ∀ o ∈ spans, Occurs start cs o
  apart : spans.Pairwise fun a b => a.start + a.size ≤ b.start
  all : ∀ o, Occurs start cs o →
    ∃ span ∈ spans, span.start ≤ o.start ∧ o.start < span.start + span.size

variable {start : Nat} {cs : List Char}

theorem Occurs.start_le {o : Occurrence} (h : Occurs start cs o) : start ≤ o.start := by
  obtain ⟨w, before, after, _, rfl⟩ := h
  exact Nat.le_add_right _ _

theorem Occurs.size_pos {o : Occurrence} (h : Occurs start cs o) : 0 < o.size := by
  obtain ⟨w, before, after, _, rfl⟩ := h
  exact w.length_text_pos

/-- Two statements that start at one place are the same. -/
theorem Occurs.eq {o o' : Occurrence} (h : Occurs start cs o) (h' : Occurs start cs o')
    (same : o.start = o'.start) : o = o' := by
  obtain ⟨w, before, after, rfl, rfl⟩ := h
  obtain ⟨w', before', after', whole, rfl⟩ := h'
  have length : before.length = before'.length := by simpa using same
  obtain ⟨rfl, rest⟩ := List.append_inj whole length
  have read := read?_text w after
  rw [rest, read?_text w' after', Option.some.injEq, Prod.mk.injEq] at read
  obtain ⟨name, rfl⟩ := read
  rw [List.append_cancel_right rest, name]

theorem occurs_append {before : List Char} {o : Occurrence} :
    Occurs (start + before.length) cs o ↔
      Occurs start (before ++ cs) o ∧ start + before.length ≤ o.start := by
  constructor
  · intro h
    refine ⟨?_, h.start_le⟩
    obtain ⟨w, between, after, rfl, rfl⟩ := h
    refine ⟨w, before ++ between, after, by simp, ?_⟩
    rw [List.length_append, Nat.add_assoc]
  · rintro ⟨⟨w, before', after, whole, rfl⟩, later⟩
    have le : before.length ≤ before'.length := by simpa using later
    rcases List.append_eq_append_iff.1 whole with ⟨between, rfl, rfl⟩ | ⟨between, rfl, rest⟩
    · refine ⟨w, between, after, rfl, ?_⟩
      rw [List.length_append, Nat.add_assoc]
    · have none : between = [] := by
        rw [List.length_append] at le
        exact List.length_eq_zero_iff.1 (by omega)
      subst none
      exact ⟨w, [], after, rest.symm, by simp⟩

theorem not_occurs_nil {o : Occurrence} : ¬ Occurs start [] o := by
  rintro ⟨w, before, after, whole, _⟩
  have length := congrArg List.length whole
  have := w.length_text_pos
  simp only [List.length_nil, List.length_append] at length
  omega

/-- Where nothing is read no statement starts. -/
theorem occurs_tail {c : Char} {o : Occurrence} (unread : read? (c :: cs) = none) :
    Occurs start (c :: cs) o ↔ Occurs (start + 1) cs o := by
  have split : Occurs (start + 1) cs o ↔ Occurs start (c :: cs) o ∧ start + 1 ≤ o.start :=
    @occurs_append start cs [c] o
  rw [split, iff_self_and]
  rintro ⟨w, before, after, whole, rfl⟩
  cases before with
  | nil =>
      rw [whole, List.nil_append, read?_text] at unread
      cases unread
  | cons d before => simp

theorem covers_nil {spans : List Occurrence} : Covers start [] spans ↔ spans = [] := by
  constructor
  · intro covers
    rw [List.eq_nil_iff_forall_not_mem]
    exact fun o ho => not_occurs_nil (covers.occur o ho)
  · rintro rfl
    exact ⟨nofun, List.Pairwise.nil, fun o ho => absurd ho not_occurs_nil⟩

theorem covers_tail {c : Char} {spans : List Occurrence} (unread : read? (c :: cs) = none) :
    Covers start (c :: cs) spans ↔ Covers (start + 1) cs spans := by
  constructor
  · intro ⟨occur, apart, all⟩
    simp only [occurs_tail unread] at occur all
    exact ⟨occur, apart, all⟩
  · intro ⟨occur, apart, all⟩
    simp only [← occurs_tail unread] at occur all
    exact ⟨occur, apart, all⟩

/-- A statement at the start is the first one, and the others lie behind it. -/
theorem covers_text (w : Spelling) {rest : List Char} {spans : List Occurrence} :
    Covers start (w.text ++ rest) spans ↔
      ∃ more, spans = ⟨start, w.text.length, w.name⟩ :: more ∧
        Covers (start + w.text.length) rest more := by
  have first : Occurs start (w.text ++ rest) ⟨start, w.text.length, w.name⟩ :=
    ⟨w, [], rest, rfl, rfl⟩
  constructor
  · intro covers
    obtain ⟨span, hspan, le, _⟩ := covers.all _ first
    have here : span = ⟨start, w.text.length, w.name⟩ :=
      (covers.occur span hspan).eq first (Nat.le_antisymm le (covers.occur span hspan).start_le)
    subst here
    cases spans with
    | nil => cases hspan
    | cons head more =>
        obtain ⟨behind, apart⟩ := List.pairwise_cons.1 covers.apart
        have same : head = ⟨start, w.text.length, w.name⟩ := by
          cases List.mem_cons.1 hspan with
          | inl same => exact same.symm
          | inr later =>
              have before : head.start + head.size ≤ start := behind _ later
              have le := (covers.occur head List.mem_cons_self).start_le
              have pos := (covers.occur head List.mem_cons_self).size_pos
              omega
        subst same
        refine ⟨more, rfl, ?_, apart, ?_⟩
        · intro o ho
          exact occurs_append.2 ⟨covers.occur o (List.mem_cons_of_mem _ ho), behind o ho⟩
        · intro o ho
          obtain ⟨inside, later⟩ := occurs_append.1 ho
          obtain ⟨span, hspan, le, lt⟩ := covers.all o inside
          cases List.mem_cons.1 hspan with
          | inl same =>
              subst same
              exact absurd lt (Nat.not_lt_of_le later)
          | inr hspan => exact ⟨span, hspan, le, lt⟩
  · rintro ⟨more, rfl, covers⟩
    refine ⟨?_, List.pairwise_cons.2 ⟨?_, covers.apart⟩, ?_⟩
    · intro o ho
      cases List.mem_cons.1 ho with
      | inl same => rwa [same]
      | inr ho => exact (occurs_append.1 (covers.occur o ho)).1
    · intro o ho
      exact (covers.occur o ho).start_le
    · intro o ho
      by_cases later : start + w.text.length ≤ o.start
      · obtain ⟨span, hspan, inside⟩ := covers.all o (occurs_append.2 ⟨ho, later⟩)
        exact ⟨span, List.mem_cons_of_mem _ hspan, inside⟩
      · exact ⟨_, List.mem_cons_self, ho.start_le, Nat.lt_of_not_le later⟩

theorem covers_iff (start : Nat) (cs : List Char) (spans : List Occurrence) :
    Covers start cs spans ↔ spans = occurrencesFrom start cs := by
  fun_induction occurrencesFrom start cs generalizing spans with
  | case1 start cs name rest read ih =>
      obtain ⟨w, rfl, rfl⟩ := read?_eq_some_iff.1 read
      have size : (w.text ++ rest).length - rest.length = w.text.length := by simp
      rw [covers_text]
      simp only [size] at ih ⊢
      simp only [ih]
      simp
  | case2 start unread => exact covers_nil
  | case3 start c cs unread ih => rw [covers_tail unread, ih]

/-- The references that the statements of a line stand for. -/
def references (file : Option Path) (number : UInt32) (spans : List Occurrence) :
    List Reference :=
  ((spans.map fun o => Text.trim o.name).filter (· != [])).map
    fun name => ⟨String.ofList name, file, number⟩

/-- The statements found in a line are the one list that covers it, and a text has the references of
its lines, in their order and with their numbers. -/
theorem scan_covers (code : String) (file : Option Path) :
    (∀ line spans, Covers 0 line spans ↔ spans = occurrences line) ∧
      scan code file = ((Text.lines code.toList).zipIdx 1).flatMap
        fun (line, number) => references file (.ofNat number) (occurrences line) := by
  refine ⟨fun line spans => covers_iff 0 line spans, ?_⟩
  rw [List.zipIdx_succ, List.flatMap_map]
  simp only [scan, names, references, UInt32.ofNat_add, UInt32.ofNat_one]

/-- A name may hold a bang and an opening quote, and no statement is found inside of another. -/
example : (occurrences "!!「a!「b」を取込！『c』 取り込む".toList).map (fun o => (o.start, o.size)) =
    [(1, 10), (11, 8)] := by decide +kernel

end ScriptImports.Statement
