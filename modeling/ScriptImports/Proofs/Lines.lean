import Mathlib.Data.List.DropRight
import ScriptImports.Proofs.Pieces
import ScriptImports.Proofs.Writing

/-!
Scanning goes line by line, and what it finds does not depend on how the lines end: a carriage return
at the end of a line and an empty line at the end of a text hold no statement. So a text can be cut at
any line feed, and the parts scanned one after the other.
-/
namespace ScriptImports

namespace Text

theorem lines_append_feed {line : List Char} {last : Char} (oneLine : '\n' ∉ line)
    (ends : line.getLast? = some last) (other : last ≠ '\r') (rest : List Char) :
    lines (line ++ '\n' :: rest) = line :: lines rest := by
  rw [lines_append oneLine ends (fun cr => absurd cr other), lines, prepend, List.append_nil]

/-- A line feed ends a line, which a carriage return before it does not belong to. -/
theorem exists_lines_append {line : List Char} (oneLine : '\n' ∉ line) (rest : List Char) :
    ∃ kept, (line = kept ∨ line = kept ++ ['\r']) ∧
      lines (line ++ '\n' :: rest) = kept :: lines rest := by
  cases ends : line.getLast? with
  | none =>
      rw [List.getLast?_eq_none_iff.1 ends]
      exact ⟨[], Or.inl rfl, by rw [List.nil_append, lines]⟩
  | some last =>
      by_cases cr : last = '\r'
      · subst cr
        obtain ⟨kept, rfl⟩ := List.getLast?_eq_some_iff.1 ends
        refine ⟨kept, Or.inr rfl, ?_⟩
        rw [List.append_assoc, List.singleton_append]
        cases before : kept.getLast? with
        | none => rw [List.getLast?_eq_none_iff.1 before, List.nil_append, lines]
        | some c =>
            have unbroken : '\n' ∉ kept := fun lf => oneLine (List.mem_append_left _ lf)
            rw [lines_append unbroken before (fun _ => by simp), lines, prepend, List.append_nil]
      · exact ⟨line, Or.inl rfl, lines_append_feed oneLine ends cr rest⟩

/-- Every line feed begins a line, which may have nothing in it before the text ends. -/
theorem length_lines_append (above below : List Char) :
    (lines (above ++ '\n' :: below)).length = above.count '\n' + 1 + (lines below).length := by
  induction above with
  | nil => rw [List.nil_append, lines, List.length_cons, List.count_nil, Nat.zero_add, Nat.add_comm]
  | cons c above ih =>
      by_cases feed : c = '\n'
      · subst feed
        rw [List.cons_append, lines, List.length_cons, ih, List.count_cons_self]
        omega
      · rw [List.count_cons_of_ne feed, ← ih]
        by_cases ending : c = '\r' ∧ (above ++ '\n' :: below).head? = some '\n'
        · obtain ⟨rfl, lf⟩ := ending
          obtain ⟨rest, whole⟩ := List.head?_eq_some_iff.1 lf
          rw [List.cons_append, whole, lines, lines]
        · rw [List.cons_append, lines_cons feed fun cr lf => ending ⟨cr, lf⟩, length_prepend]
          exact mt lines_eq_nil_iff.1 (List.append_ne_nil_of_right_ne_nil above (List.cons_ne_nil _ _))

theorem lines_of_not_mem {line : List Char} (oneLine : '\n' ∉ line) (nonempty : line ≠ []) :
    lines line = [line] := by
  have ends : [].head? ≠ some '\n' := nofun
  have whole := lines_append oneLine (List.getLast?_eq_some_getLast nonempty) fun _ => ends
  rwa [List.append_nil, lines, prepend] at whole

/-- Lines that are joined are the lines of what comes out, if none of them looks like the end of one. -/
theorem lines_intercalate {ls : List (List Char)} (oneLine : ∀ line ∈ ls, '\n' ∉ line)
    (ends : ∀ line ∈ ls, ∃ c ≠ '\r', line.getLast? = some c) :
    lines (['\n'].intercalate ls) = ls := by
  induction ls with
  | nil => rfl
  | cons line ls ih =>
      rw [List.forall_mem_cons] at oneLine ends
      obtain ⟨c, other, last⟩ := ends.1
      cases ls with
      | nil =>
          rw [List.intercalate_singleton, lines_of_not_mem oneLine.1]
          rintro rfl
          cases last
      | cons next ls =>
          rw [List.intercalate_cons_cons, List.append_assoc, List.singleton_append,
            lines_append_feed oneLine.1 last other, ih oneLine.2 ends.2]

theorem dropBlankEnd_eq (cs : List Char) : dropBlankEnd cs = cs.rdropWhile isBlank := rfl

theorem trim_subset (cs : List Char) : trim cs ⊆ cs :=
  fun _ hc => (List.dropWhile_sublist _).subset ((List.rdropWhile_prefix _ _).subset hc)

/-- Nothing more is dropped from the front when the end has been trimmed. -/
theorem dropWhile_trim (cs : List Char) : (trim cs).dropWhile isBlank = trim cs := by
  cases trimmed : trim cs with
  | nil => rfl
  | cons c more =>
      obtain ⟨rest, whole⟩ : c :: more <+: cs.dropWhile isBlank := by
        rw [← trimmed, trim, dropBlankEnd_eq]
        exact List.rdropWhile_prefix _ _
      have shown := List.head?_dropWhile_not isBlank cs
      rw [← whole, List.cons_append, List.head?_cons] at shown
      exact List.dropWhile_cons_of_neg (by simpa using shown)

theorem trim_trim (cs : List Char) : trim (trim cs) = trim cs := by
  rw [trim, dropWhile_trim, trim, dropBlankEnd_eq, dropBlankEnd_eq, List.rdropWhile_idempotent]

end Text

/-- The same reference, some lines further down. -/
def Reference.movedDown (count : Nat) (r : Reference) : Reference :=
  { r with line := r.line + .ofNat count }

namespace Statement

/-! The end of a line. -/

theorem occurs_concat {start : Nat} {cs : List Char} {c : Char} {o : Occurrence} (other : c ≠ '込') :
    Occurs start (cs ++ [c]) o ↔ Occurs start cs o := by
  constructor
  · rintro ⟨w, before, after, whole, rfl⟩
    cases List.eq_nil_or_concat after with
    | inl nothing =>
        have last := congrArg List.getLast? whole
        rw [nothing, List.append_nil, List.getLast?_append, List.getLast?_append, getLast?_text,
          List.getLast?_singleton, Option.some_or, Option.some_or, Option.some.injEq] at last
        exact absurd last other
    | inr more =>
        obtain ⟨after', d, rfl⟩ := more
        rw [List.concat_eq_append, ← List.append_assoc, ← List.append_assoc] at whole
        refine ⟨w, before, after', ?_, rfl⟩
        rw [(List.append_inj' whole rfl).1, List.append_assoc]
  · rintro ⟨w, before, after, rfl, rfl⟩
    exact ⟨w, before, after ++ [c], by simp only [List.append_assoc], rfl⟩

theorem occurrences_concat {c : Char} (other : c ≠ '込') (line : List Char) :
    occurrences (line ++ [c]) = occurrences line := by
  have covers : Covers 0 line (occurrences line) := (covers_iff _ _ _).2 rfl
  refine ((covers_iff _ _ _).1 ⟨?_, covers.apart, ?_⟩).symm
  · exact fun o ho => (occurs_concat other).2 (covers.occur o ho)
  · exact fun o ho => covers.all o ((occurs_concat other).1 ho)

theorem names_concat {c : Char} (other : c ≠ '込') (line : List Char) :
    names (line ++ [c]) = names line := by
  rw [names, occurrences_concat other, names]

/-! Lines as what stands between line feeds. -/

variable (file : Option Path)

theorem scanLines_append (number : Nat) (ls ls' : List (List Char)) :
    scanLines file number (ls ++ ls') =
      scanLines file number ls ++ scanLines file (number + ls.length) ls' := by
  rw [scanLines, List.zipIdx_append, List.flatMap_append, scanLines, scanLines]

theorem scanLines_movedDown (number count : Nat) (ls : List (List Char)) :
    scanLines file (number + count) ls =
      (scanLines file number ls).map (Reference.movedDown count) := by
  induction ls generalizing number with
  | nil => rfl
  | cons line ls ih =>
      rw [scanLines_cons, scanLines_cons, Nat.add_right_comm, ih, List.map_append, List.map_map,
        UInt32.ofNat_add]
      rfl

theorem scanLines_intercalate (number : Nat) {pieces : List (List Char)}
    (oneLine : ∀ piece ∈ pieces, '\n' ∉ piece) :
    scanLines file number (Text.lines (['\n'].intercalate pieces)) =
      scanLines file number pieces := by
  induction pieces generalizing number with
  | nil => rfl
  | cons piece pieces ih =>
      obtain ⟨here, later⟩ := List.forall_mem_cons.1 oneLine
      cases pieces with
      | nil =>
          rw [List.intercalate_singleton]
          -- behind the last line feed there may be nothing: a piece that is not a line
          by_cases nothing : piece = []
          · rw [nothing, Text.lines, scanLines_cons, names_nil]
            rfl
          · rw [Text.lines_of_not_mem here nothing]
      | cons next pieces =>
          rw [List.intercalate_cons_cons, List.append_assoc, List.singleton_append]
          obtain ⟨kept, ends, whole⟩ := Text.exists_lines_append here _
          have same : names piece = names kept := by
            cases ends with
            | inl same => rw [same]
            | inr cr => rw [cr, names_concat (by decide)]
          rw [whole, scanLines_cons, scanLines_cons, ih _ later, same]

theorem scan_eq_pieces (code : String) :
    scan code file = scanLines file 1 (code.toList.splitOn '\n') := by
  have oneLine : ∀ piece ∈ code.toList.splitOn '\n', '\n' ∉ piece :=
    Text.not_mem_of_mem_splitOn code.toList
  rw [← scanLines_intercalate file 1 oneLine, List.intercalate_splitOn, scan_eq_scanLines]

/-- A carriage return at the end of a text holds no statement. -/
theorem scanLines_return (number : Nat) (cs : List Char) :
    scanLines file number ((cs ++ ['\r']).splitOn '\n') =
      scanLines file number (cs.splitOn '\n') := by
  obtain ⟨before, last, whole, longer⟩ := @Text.splitOn_concat _ '\n' _ '\r' (by decide) cs
  rw [whole, longer, scanLines_append, scanLines_append, scanLines_cons, scanLines_cons,
    names_concat (by decide)]

/-- What is found below a line feed is what is found in the text below, further down. -/
theorem scanLines_splitOn (above below : List Char) :
    scanLines file 1 ((above ++ '\n' :: below).splitOn '\n') =
      scanLines file 1 (above.splitOn '\n') ++
        (scanLines file 1 (below.splitOn '\n')).map
          (Reference.movedDown (1 + above.count '\n')) := by
  rw [List.splitOn_append_cons_self, scanLines_append, Text.length_splitOn,
    Nat.add_comm (above.count '\n'), scanLines_movedDown]

/-! The references of a text. -/

theorem of_mem_names {line name : List Char} (h : name ∈ names line) :
    name ≠ [] ∧ Text.trim name = name ∧ ∀ c ∈ name, c ∉ ['」', '』', '"', '\r', '\n'] := by
  rw [names, List.mem_filter, bne_iff_ne] at h
  obtain ⟨o, ho, rfl⟩ := List.mem_map.1 h.1
  have covers : Covers 0 line (occurrences line) := (covers_iff _ _ _).2 rfl
  obtain ⟨w, _, _, _, rfl⟩ := covers.occur o ho
  exact ⟨h.2, Text.trim_trim _, fun c hc => w.name_chars c (Text.trim_subset _ hc)⟩

theorem pairwise_scanLines {number : Nat} {ls : List (List Char)}
    (fits : number + ls.length ≤ UInt32.size) :
    (scanLines file number ls).Pairwise fun r r' => r.line ≤ r'.line := by
  induction ls generalizing number with
  | nil => exact List.Pairwise.nil
  | cons line ls ih =>
      rw [List.length_cons] at fits
      rw [scanLines_cons, List.pairwise_append]
      refine ⟨List.pairwise_map.2 (List.pairwise_of_forall fun _ _ => UInt32.le_refl _),
        ih (by omega), ?_⟩
      intro r hr r' hr'
      obtain ⟨name, _, rfl⟩ := List.mem_map.1 hr
      obtain ⟨i, _, at_i, _, _, rfl⟩ := mem_scanLines.1 hr'
      obtain ⟨below, _⟩ := List.getElem?_eq_some_iff.1 at_i
      rw [UInt32.le_iff_toNat_le, UInt32.toNat_ofNat_of_lt' (by omega),
        UInt32.toNat_ofNat_of_lt' (by omega)]
      omega

/-- The line of a reference is the number of a line of the text, while such numbers fit. -/
theorem line_of_mem_scan {code : String} {r : Reference} (hr : r ∈ scan code file)
    (fits : (Text.lines code.toList).length < UInt32.size) :
    1 ≤ r.line.toNat ∧ r.line.toNat ≤ (Text.lines code.toList).length := by
  obtain ⟨i, line, at_i, name, _, rfl⟩ := mem_scan.1 hr
  obtain ⟨within, _⟩ := List.getElem?_eq_some_iff.1 at_i
  rw [UInt32.toNat_ofNat_of_lt' (by omega)]
  omega

/-- Where two texts are joined by a line end, the references are those of the first text and then those
of the second, moved down by the lines before it. All of them have trimmed names without quotes. While
the lines of a text can be numbered, those of the references are in order and within the text, and
moving down is adding. -/
theorem scan_joined (a b : String) (file : Option Path) :
    (scan (a ++ "\n" ++ b) file =
      scan a file ++ (scan b file).map (Reference.movedDown (1 + a.toList.count '\n'))) ∧
    (scan (a ++ "\r\n" ++ b) file =
      scan a file ++ (scan b file).map (Reference.movedDown (1 + a.toList.count '\n'))) ∧
    (∀ r ∈ scan a file, r.name ≠ "" ∧ Text.trim r.name.toList = r.name.toList ∧
      ∀ c ∈ r.name.toList, c ∉ ['」', '』', '"', '\r', '\n']) ∧
    ((Text.lines a.toList).length < UInt32.size →
      ((scan a file).Pairwise fun r r' => r.line ≤ r'.line) ∧
      ∀ r ∈ scan a file, 1 ≤ r.line.toNat ∧ r.line.toNat ≤ (Text.lines a.toList).length) ∧
    ((Text.lines (a ++ "\n" ++ b).toList).length < UInt32.size → ∀ r ∈ scan b file,
      (r.movedDown (1 + a.toList.count '\n')).line.toNat =
        r.line.toNat + (1 + a.toList.count '\n')) := by
  refine ⟨?_, ?_, ?_, fun fits => ⟨?_, fun r hr => line_of_mem_scan file hr fits⟩, ?_⟩
  · simp only [scan_eq_pieces, String.toList_append, String.reduceToList, List.append_assoc,
      List.singleton_append]
    exact scanLines_splitOn file a.toList b.toList
  · have ending : (a ++ "\r\n" ++ b).toList = (a.toList ++ ['\r']) ++ '\n' :: b.toList := by simp
    rw [scan_eq_pieces, scan_eq_pieces, scan_eq_pieces, ending, scanLines_splitOn, scanLines_return,
      List.count_append]
    rfl
  · intro r hr
    obtain ⟨_, line, _, name, hname, rfl⟩ := mem_scan.1 hr
    obtain ⟨nonempty, trimmed, plain⟩ := of_mem_names hname
    refine ⟨?_, ?_, ?_⟩
    · simpa using nonempty
    · rw [String.toList_ofList, trimmed]
    · rwa [String.toList_ofList]
  · rw [scan_eq_scanLines]
    exact pairwise_scanLines file (by omega)
  · intro fits r hr
    have joined : (a ++ "\n" ++ b).toList = a.toList ++ '\n' :: b.toList := by simp
    rw [joined, Text.length_lines_append] at fits
    have within := (line_of_mem_scan file hr (by omega)).2
    have sum : r.line.toNat + (1 + a.toList.count '\n') < UInt32.size := by omega
    rw [Reference.movedDown, UInt32.toNat_add, UInt32.toNat_ofNat_of_lt' (by omega)]
    exact Nat.mod_eq_of_lt sum

/-- The first text ends in a carriage return, with an import in its last line. -/
theorem scan_joined_return :
    scan ("\n!「 a.js 」を取り込む\r" ++ "\n" ++ "！\"b\"取込\n") none =
      [⟨"a.js", none, 2⟩, ⟨"b", none, 3⟩] ∧
    scan ("\n!「 a.js 」を取り込む\r" ++ "\r\n" ++ "！\"b\"取込\n") none =
      [⟨"a.js", none, 2⟩, ⟨"b", none, 3⟩] ∧
    Text.trim "a.js".toList = "a.js".toList ∧
    (2 : UInt32).toNat ≤ (Text.lines "\n!「 a.js 」を取り込む\r".toList).length ∧
    (Reference.movedDown 2 ⟨"b", none, 1⟩).line.toNat = 1 + 2 := by
  obtain ⟨lf, crlf, named, ordered, moved⟩ :=
    scan_joined "\n!「 a.js 」を取り込む\r" "！\"b\"取込\n" none
  have above : scan "\n!「 a.js 」を取り込む\r" none = [⟨"a.js", none, 2⟩] := by decide +kernel
  have below : scan "！\"b\"取込\n" none = [⟨"b", none, 1⟩] := by decide +kernel
  rw [above] at lf crlf named ordered
  rw [below] at lf crlf moved
  exact ⟨lf, crlf, (named _ (List.mem_singleton_self _)).2.1,
    ((ordered (by decide +kernel)).2 _ (List.mem_singleton_self _)).2,
    moved (by decide +kernel) _ (List.mem_singleton_self _)⟩

end Statement

end ScriptImports
