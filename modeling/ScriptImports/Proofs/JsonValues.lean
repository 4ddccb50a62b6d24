import ScriptImports.Proofs.JsonTexts

/-!
The values that a text spells. A reader for the parts of a value makes one for the value, and so
the reader of any depth takes off exactly the values that go no deeper. A value goes no deeper than its
text is long, so a whole text is read exactly if it spells a value, and as that value.
-/
namespace ScriptImports.Json

open Text

/-- The reader takes off exactly what is spelled, after white space. -/
structure Reads {α : Type} (item : Reader α) (spells : List Char → α → Prop) : Prop where
  sound {cs rest : List Char} {a : α} : item cs = some (a, rest) →
    ∃ text, Led spells text a ∧ cs = text ++ rest
  complete {text rest : List Char} {a : α} : Led spells text a → Stops rest →
    item (text ++ rest) = some (a, rest)

theorem comma_eq_some {cs rest : List Char} {u : Unit} (h : comma cs = some (u, rest)) :
    ∃ blank, Blank blank ∧ cs = blank ++ ',' :: rest := by
  rw [comma, Reader.bind_eq_some_iff] at h
  obtain ⟨_, mid, spaced, h⟩ := h
  obtain ⟨blank, hb, rfl⟩ := space_eq_some spaced
  obtain rfl := Reader.char_eq_some_iff.1 h
  exact ⟨blank, hb, rfl⟩

theorem comma_append {blank rest : List Char} (hb : Blank blank) :
    comma (blank ++ ',' :: rest) = some ((), rest) := by
  rw [comma, Reader.bind_of_eq_some (space_append hb (front_cons rfl)), Reader.char_cons]

section

variable {α : Type} {item : Reader α} {spells : List Char → α → Prop} {close : Char}

/-- An item and those that commas divide from it, up to white space. -/
theorem listed_of_manyUpTo (reads : Reads item spells) {blank tail : List Char} (hb : Blank blank) :
    ∀ (n : Nat) {led mid : List Char} {a : α} {as : List α}, Led spells led a →
      Reader.manyUpTo n (do comma; item) mid = some (as, blank ++ tail) →
      ∃ text, Listed spells text (a :: as) ∧ led ++ mid = text ++ tail := by
  have alone : ∀ {led : List Char} {a : α}, Led spells led a →
      ∃ text, Listed spells text [a] ∧ led ++ (blank ++ tail) = text ++ tail := fun first =>
    ⟨_, .last ⟨_, blank, first, hb, rfl⟩, (List.append_assoc ..).symm⟩
  intro n
  induction n with
  | zero =>
      intro led mid a as first h
      obtain ⟨rfl, rfl⟩ := Reader.pure_eq_some_iff.1 h
      exact alone first
  | succ n ih =>
      intro led mid a as first h
      rcases Reader.manyUpTo_eq_some h with ⟨b, mid', bs, second, more, rfl⟩ | ⟨rfl, rfl⟩
      · rw [Reader.bind_eq_some_iff] at second
        obtain ⟨_, after, divided, second⟩ := second
        obtain ⟨trail, ht, rfl⟩ := comma_eq_some divided
        obtain ⟨led', spelled, rfl⟩ := reads.sound second
        obtain ⟨text, listed, same⟩ := ih spelled more
        exact ⟨_, .cons ⟨led, trail, first, ht, rfl⟩ listed, by simp [same]⟩
      · exact alone first

/-- What a list of items up to a bracket takes off a text. -/
theorem listUpTo_eq_some (reads : Reads item spells) {cs rest : List Char} {as : List α}
    (h : listUpTo close item cs = some (as, rest)) :
    ∃ text, Between spells text as ∧ cs = text ++ close :: rest := by
  rw [listUpTo, Reader.bind_eq_some_iff] at h
  obtain ⟨items, mid, listed, h⟩ := h
  rw [Reader.bind_eq_some_iff] at h
  obtain ⟨_, after, spaced, h⟩ := h
  rw [Reader.bind_eq_some_iff] at h
  obtain ⟨_, _, closed, h⟩ := h
  obtain ⟨rfl, rfl⟩ := Reader.pure_eq_some_iff.1 h
  obtain ⟨blank, hb, rfl⟩ := space_eq_some spaced
  obtain rfl := Reader.char_eq_some_iff.1 closed
  rcases Reader.option_eq_some_iff.1 listed with ⟨bs, rfl, read⟩ | ⟨rfl, _, rfl⟩
  · rw [Reader.separated, Reader.bind_eq_some_iff] at read
    obtain ⟨a, mid, first, read⟩ := read
    rw [Reader.bind_eq_some_iff] at read
    obtain ⟨as, _, more, read⟩ := read
    obtain ⟨rfl, rfl⟩ := Reader.pure_eq_some_iff.1 read
    obtain ⟨led, spelled, rfl⟩ := reads.sound first
    obtain ⟨text, listed, same⟩ := listed_of_manyUpTo reads hb _ spelled more
    exact ⟨text, Or.inr listed, same⟩
  · exact ⟨blank, Or.inl ⟨hb, rfl⟩, rfl⟩

theorem Listed.length_le {text : List Char} {as : List α} (h : Listed spells text as) :
    as.length ≤ text.length + 1 := by
  induction h with
  | last _ => simp
  | cons _ _ ih =>
      rw [List.length_cons, List.length_append, List.length_cons]
      omega

/-- The items of a list are read one after the other, and all of them. The last one leaves the white
space that stands before the bracket. -/
theorem Listed.manyUpTo (reads : Reads item spells) (visible : isSpace close = false)
    (noComma : close ≠ ',') {tail : List Char} (stops : Stops (close :: tail)) {text : List Char}
    {as : List α} (h : Listed spells text as) :
    ∃ a more mid blank, as = a :: more ∧ item (text ++ close :: tail) = some (a, mid) ∧
      Blank blank ∧ more.length ≤ mid.length ∧
      ∀ n, more.length ≤ n →
        Reader.manyUpTo n (do comma; item) mid = some (more, blank ++ close :: tail) := by
  induction h with
  | @last text a first =>
      obtain ⟨led, after, first, ha, rfl⟩ := first
      refine ⟨a, [], after ++ close :: tail, after, rfl, ?_, ha, Nat.zero_le _, fun n _ => ?_⟩
      · rw [List.append_assoc]
        exact reads.complete first (stops.append_blank ha)
      · apply Reader.manyUpTo_of_eq_none
        apply Reader.bind_of_eq_none
        rw [comma, Reader.bind_of_eq_some (space_append ha (front_cons visible))]
        exact Reader.char_eq_none (by simpa using noComma)
  | @cons text more a as first listed ih =>
      obtain ⟨led, after, first, ha, rfl⟩ := first
      obtain ⟨b, bs, mid, blank, rfl, second, hb, _, rest⟩ := ih
      refine ⟨a, b :: bs, after ++ ',' :: (more ++ close :: tail), blank, rfl, ?_, hb, ?_, ?_⟩
      · rw [List.append_assoc, List.append_assoc, List.cons_append]
        exact reads.complete first (Stops.append_blank ha (stops_cons (by decide)))
      · have few := listed.length_le
        simp only [List.length_append, List.length_cons] at few ⊢
        omega
      · intro n enough
        obtain ⟨n, rfl⟩ := Nat.exists_eq_add_one_of_ne_zero (Nat.ne_zero_of_lt enough)
        have next : (do comma; item) (after ++ ',' :: (more ++ close :: tail)) = some (b, mid) := by
          rw [Reader.bind_of_eq_some (comma_append ha), second]
        exact Reader.manyUpTo_succ next (rest n (Nat.le_of_succ_le_succ enough))

/-- A list of items is read up to its bracket. -/
theorem listUpTo_append (reads : Reads item spells) (visible : isSpace close = false)
    (noComma : close ≠ ',') {tail : List Char} (stops : Stops (close :: tail))
    (nothing : ∀ blank, Blank blank → item (blank ++ close :: tail) = none) {text : List Char}
    {as : List α} (between : Between spells text as) :
    listUpTo close item (text ++ close :: tail) = some (as, tail) := by
  have items : ∃ read blank, Blank blank ∧ read.getD [] = as ∧
      Reader.option (Reader.separated comma item) (text ++ close :: tail) =
        some (read, blank ++ close :: tail) := by
    rcases between with ⟨hb, rfl⟩ | listed
    · refine ⟨none, text, hb, rfl, Reader.option_eq_some_iff.2 (Or.inr ⟨rfl, ?_, rfl⟩)⟩
      exact Reader.bind_of_eq_none (nothing text hb)
    · obtain ⟨a, more, mid, blank, rfl, first, hb, few, rest⟩ :=
        listed.manyUpTo reads visible noComma stops
      refine ⟨some (a :: more), blank, hb, rfl,
        Reader.option_eq_some_iff.2 (Or.inl ⟨_, rfl, ?_⟩)⟩
      have others : Reader.many (do comma; item) mid = some (more, blank ++ close :: tail) :=
        rest mid.length few
      rw [Reader.separated, Reader.bind_of_eq_some first, Reader.bind_of_eq_some others]
      rfl
  obtain ⟨read, blank, hb, rfl, items⟩ := items
  rw [listUpTo, Reader.bind_of_eq_some items,
    Reader.bind_of_eq_some (space_append hb (front_cons visible)),
    Reader.bind_of_eq_some Reader.char_cons]
  rfl

end

/-! Members and values. -/

variable {nested : Reader Json} {spells spells' : List Char → Json → Prop}

theorem member_reads (reads : Reads nested spells) : Reads (member nested) (SpellsMember spells) where
  sound {cs rest m} h := by
    rw [member, Reader.bind_eq_some_iff] at h
    obtain ⟨_, mid, spaced, h⟩ := h
    obtain ⟨before, hb, rfl⟩ := space_eq_some spaced
    rw [Reader.bind_eq_some_iff] at h
    obtain ⟨_, mid', quoted, h⟩ := h
    obtain rfl := Reader.char_eq_some_iff.1 quoted
    rw [Reader.bind_eq_some_iff] at h
    obtain ⟨key, mid'', named, h⟩ := h
    obtain ⟨body, units, name, rfl, rfl⟩ := stringBody_eq_some named
    rw [Reader.bind_eq_some_iff] at h
    obtain ⟨_, mid, spaced', h⟩ := h
    obtain ⟨blank, hb', rfl⟩ := space_eq_some spaced'
    rw [Reader.bind_eq_some_iff] at h
    obtain ⟨_, mid', colon, h⟩ := h
    obtain rfl := Reader.char_eq_some_iff.1 colon
    rw [Reader.bind_eq_some_iff] at h
    obtain ⟨v, _, valued, h⟩ := h
    obtain ⟨rfl, rfl⟩ := Reader.pure_eq_some_iff.1 h
    obtain ⟨value, spelled, rfl⟩ := reads.sound valued
    exact ⟨_, ⟨before, _, hb, ⟨_, blank, value, ⟨body, units, name, rfl, rfl⟩, hb', spelled, rfl⟩, rfl⟩,
      by simp⟩
  complete {text rest m} led stops := by
    obtain ⟨before, _, hb, ⟨_, blank, value, ⟨body, units, name, same, rfl⟩, hb', spelled, rfl⟩, rfl⟩ :=
      led
    have shape : before ++ ('"' :: body ++ ['"'] ++ blank ++ ':' :: value) ++ rest =
        before ++ '"' :: (body ++ '"' :: (blank ++ ':' :: (value ++ rest))) := by simp
    rw [shape, member, Reader.bind_of_eq_some (space_append hb (front_cons rfl)),
      Reader.bind_of_eq_some Reader.char_cons, Reader.bind_of_eq_some (stringBody_append name _),
      Reader.bind_of_eq_some (space_append hb' (front_cons rfl)),
      Reader.bind_of_eq_some Reader.char_cons,
      Reader.bind_of_eq_some (reads.complete spelled stops), ← same]
    rfl

theorem valueOf_append {blank cs : List Char} (hb : Blank blank) (front : Front cs) :
    valueOf nested (blank ++ cs) = valueOf nested cs := by
  rw [valueOf, Reader.bind_of_eq_some (space_append hb front),
    Reader.bind_of_eq_some (space_front front)]

/-! What stands behind the first character of a value, which tells the kind of the value. -/

section

variable {cs : List Char}

theorem valueOf_null : valueOf nested ('n' :: cs) =
    ((fun _ => Json.null) <$> Reader.literal "null") ('n' :: cs) := rfl

theorem valueOf_true : valueOf nested ('t' :: cs) =
    ((fun _ => Json.boolean true) <$> Reader.literal "true") ('t' :: cs) := rfl

theorem valueOf_false : valueOf nested ('f' :: cs) =
    ((fun _ => Json.boolean false) <$> Reader.literal "false") ('f' :: cs) := rfl

theorem valueOf_string : valueOf nested ('"' :: cs) = (Json.string <$> stringBody) cs := rfl

theorem valueOf_negative : valueOf nested ('-' :: cs) = (Json.number <$> digits) cs := rfl

theorem valueOf_array :
    valueOf nested ('[' :: cs) = (Json.array <$> listUpTo ']' nested) cs := rfl

theorem valueOf_object :
    valueOf nested ('\x7b' :: cs) = (Json.object <$> listUpTo '\x7d' (member nested)) cs := rfl

theorem valueOf_number {c : Char} (visible : isSpace c = false)
    (plain : c ∉ ['n', 't', 'f', '"', '-', '[', '\x7b']) :
    valueOf nested (c :: cs) = (Json.number <$> digits) (c :: cs) := by
  have peeked : Reader.peek? (c :: cs) = some (some c, c :: cs) := rfl
  rw [valueOf, Reader.bind_of_eq_some (space_front (front_cons visible)),
    Reader.bind_of_eq_some peeked]
  refine congrFun ?_ (c :: cs)
  split
  case h_8 => rfl
  all_goals
    next same =>
      cases same
      simp at plain

end

/-- No value starts with a closing bracket. -/
theorem valueOf_bracket {blank rest : List Char} (hb : Blank blank) :
    valueOf nested (blank ++ ']' :: rest) = none := by
  rw [valueOf_append hb (front_cons rfl)]
  rfl

theorem member_brace {blank rest : List Char} (hb : Blank blank) :
    member nested (blank ++ '\x7d' :: rest) = none := by
  rw [member, Reader.bind_of_eq_some (space_append hb (front_cons rfl))]
  rfl

theorem valueOf_sound (reads : Reads nested spells) {cs rest : List Char} {v : Json}
    (h : valueOf nested cs = some (v, rest)) :
    ∃ text, Led (SpellsOf spells) text v ∧ cs = text ++ rest := by
  obtain ⟨before, mid, hb, front, _, rfl⟩ := exists_blank cs
  rw [valueOf_append hb front] at h
  have lead : (∃ text, SpellsOf spells text v ∧ mid = text ++ rest) →
      ∃ text, Led (SpellsOf spells) text v ∧ before ++ mid = text ++ rest := by
    rintro ⟨text, spelled, rfl⟩
    exact ⟨_, ⟨before, text, hb, spelled, rfl⟩, (List.append_assoc ..).symm⟩
  apply lead
  cases mid with
  | nil => cases h
  | cons c mid =>
      by_cases sign : c ∈ ['n', 't', 'f', '"', '-', '[', '\x7b']
      · simp only [List.mem_cons, List.not_mem_nil, or_false] at sign
        rcases sign with rfl | rfl | rfl | rfl | rfl | rfl | rfl
        · rw [valueOf_null, Reader.map_eq_some_iff] at h
          obtain ⟨_, taken, rfl⟩ := h
          exact ⟨_, .null, Reader.literal_eq_some_iff.1 taken⟩
        · rw [valueOf_true, Reader.map_eq_some_iff] at h
          obtain ⟨_, taken, rfl⟩ := h
          exact ⟨_, .true, Reader.literal_eq_some_iff.1 taken⟩
        · rw [valueOf_false, Reader.map_eq_some_iff] at h
          obtain ⟨_, taken, rfl⟩ := h
          exact ⟨_, .false, Reader.literal_eq_some_iff.1 taken⟩
        · rw [valueOf_string, Reader.map_eq_some_iff] at h
          obtain ⟨s, taken, rfl⟩ := h
          obtain ⟨body, units, spelled, same, rfl⟩ := stringBody_eq_some taken
          exact ⟨_, .string ⟨body, units, spelled, same, rfl⟩, by simp⟩
        · rw [valueOf_negative, Reader.map_eq_some_iff] at h
          obtain ⟨n, taken, rfl⟩ := h
          obtain ⟨text, spelled, rfl⟩ := digits_eq_some taken
          exact ⟨_, .negative spelled, rfl⟩
        · rw [valueOf_array, Reader.map_eq_some_iff] at h
          obtain ⟨items, taken, rfl⟩ := h
          obtain ⟨text, between, rfl⟩ := listUpTo_eq_some reads taken
          exact ⟨_, .array between, by simp⟩
        · rw [valueOf_object, Reader.map_eq_some_iff] at h
          obtain ⟨members, taken, rfl⟩ := h
          obtain ⟨text, between, rfl⟩ := listUpTo_eq_some (member_reads reads) taken
          exact ⟨_, .object between, by simp⟩
      · rw [valueOf_number (front c rfl) sign, Reader.map_eq_some_iff] at h
        obtain ⟨n, taken, rfl⟩ := h
        obtain ⟨text, spelled, same⟩ := digits_eq_some taken
        exact ⟨text, .number spelled, same⟩

theorem SpellsNumber.first {text : List Char} {n : JsonNumber} (spells : SpellsNumber text n) :
    ∃ d more, text = d :: more ∧ d.isDigit = true := by
  obtain ⟨fraction, power, whole, _, _, rfl⟩ := spells
  rcases whole with whole | ⟨d, more, whole, _, digits⟩
  · rw [whole]
    exact ⟨'0', _, rfl, rfl⟩
  · rw [whole] at digits ⊢
    exact ⟨d, _, rfl, digits d List.mem_cons_self⟩

theorem valueOf_complete (reads : Reads nested spells)
    (nothing : ∀ {blank rest : List Char}, Blank blank → nested (blank ++ ']' :: rest) = none)
    {core rest : List Char} {v : Json} (spelled : SpellsOf spells core v) (stops : Stops rest) :
    Front (core ++ rest) ∧ valueOf nested (core ++ rest) = some (v, rest) := by
  cases spelled with
  | null | true | false => exact ⟨front_cons rfl, rfl⟩
  | string string =>
      obtain ⟨body, units, spelled, rfl, rfl⟩ := string
      rw [List.append_assoc, List.cons_append]
      refine ⟨front_cons rfl, ?_⟩
      rw [valueOf_string]
      exact Reader.map_eq_some_iff.2 ⟨_, stringBody_append spelled rest, rfl⟩
  | number number =>
      have taken := digits_append number stops
      obtain ⟨d, more, rfl, digit⟩ := number.first
      have visible : isSpace d = false := by
        rw [← Bool.not_eq_true, isSpace_iff]
        rintro (rfl | rfl | rfl | rfl) <;> cases digit
      have sign : d ∉ ['n', 't', 'f', '"', '-', '[', '\x7b'] := by
        intro sign
        simp only [List.mem_cons, List.not_mem_nil, or_false] at sign
        rcases sign with rfl | rfl | rfl | rfl | rfl | rfl | rfl <;> cases digit
      refine ⟨front_cons visible, ?_⟩
      rw [List.cons_append, valueOf_number visible sign]
      exact Reader.map_eq_some_iff.2 ⟨_, taken, rfl⟩
  | negative number =>
      refine ⟨front_cons rfl, ?_⟩
      rw [List.cons_append, valueOf_negative]
      exact Reader.map_eq_some_iff.2 ⟨_, digits_append number stops, rfl⟩
  | array between =>
      rw [List.append_assoc, List.cons_append]
      refine ⟨front_cons rfl, ?_⟩
      rw [valueOf_array]
      exact Reader.map_eq_some_iff.2 ⟨_, listUpTo_append reads rfl (by decide)
        (stops_cons (by decide)) (fun _ => nothing) between, rfl⟩
  | object between =>
      rw [List.append_assoc, List.cons_append]
      refine ⟨front_cons rfl, ?_⟩
      rw [valueOf_object]
      exact Reader.map_eq_some_iff.2 ⟨_, listUpTo_append (member_reads reads) rfl (by decide)
        (stops_cons (by decide)) (fun _ => member_brace) between, rfl⟩

theorem valueOf_reads (reads : Reads nested spells)
    (nothing : ∀ {blank rest : List Char}, Blank blank → nested (blank ++ ']' :: rest) = none) :
    Reads (valueOf nested) (SpellsOf spells) where
  sound := valueOf_sound reads
  complete led stops := by
    obtain ⟨before, core, hb, spelled, rfl⟩ := led
    obtain ⟨front, read⟩ := valueOf_complete reads nothing spelled stops
    rw [List.append_assoc, valueOf_append hb front, read]

/-- The reader of a depth takes off the values that go no deeper. -/
theorem value_reads (depth : Nat) : Reads (value depth) (SpellsTo depth) := by
  induction depth with
  | zero =>
      refine valueOf_reads ⟨nofun, ?_⟩ fun _ => rfl
      rintro _ _ _ ⟨_, _, _, ⟨⟩, _⟩
  | succ depth ih =>
      apply valueOf_reads ih
      cases depth <;> exact valueOf_bracket

/-! A value goes no deeper than its text is long. -/

section

variable {α : Type} {before after : List Char → α → Prop} {text : List Char} {n : Nat}

theorem Led.mono {a : α} (h : Led before text a) (short : text.length ≤ n)
    (weaken : ∀ {part a}, part.length ≤ n → before part a → after part a) : Led after text a := by
  obtain ⟨blank, core, hb, spelled, rfl⟩ := h
  rw [List.length_append] at short
  exact ⟨blank, core, hb, weaken (by omega) spelled, rfl⟩

theorem Padded.mono {a : α} (h : Padded before text a) (short : text.length ≤ n)
    (weaken : ∀ {part a}, part.length ≤ n → before part a → after part a) :
    Padded after text a := by
  obtain ⟨led, blank, first, hb, rfl⟩ := h
  rw [List.length_append] at short
  exact ⟨led, blank, first.mono (by omega) weaken, hb, rfl⟩

theorem Listed.mono {as : List α} (h : Listed before text as) (short : text.length ≤ n)
    (weaken : ∀ {part a}, part.length ≤ n → before part a → after part a) :
    Listed after text as := by
  induction h with
  | last first => exact .last (first.mono short weaken)
  | cons first _ ih =>
      rw [List.length_append, List.length_cons] at short
      exact .cons (first.mono (by omega) weaken) (ih (by omega))

theorem Between.mono {as : List α} (h : Between before text as) (short : text.length ≤ n)
    (weaken : ∀ {part a}, part.length ≤ n → before part a → after part a) :
    Between after text as :=
  h.imp_right (Listed.mono · short weaken)

end

variable {text : List Char} {n : Nat}

theorem SpellsMember.mono {m : Option String × Json} (h : SpellsMember spells text m)
    (short : text.length ≤ n)
    (weaken : ∀ {part v}, part.length ≤ n → spells part v → spells' part v) :
    SpellsMember spells' text m := by
  obtain ⟨key, blank, value, named, hb, spelled, rfl⟩ := h
  rw [List.length_append, List.length_cons] at short
  exact ⟨key, blank, value, named, hb, spelled.mono (by omega) weaken, rfl⟩

theorem SpellsOf.mono {v : Json} (h : SpellsOf spells text v)
    (weaken : ∀ {part v}, part.length < text.length → spells part v → spells' part v) :
    SpellsOf spells' text v := by
  cases h with
  | null => exact .null
  | true => exact .true
  | false => exact .false
  | string spelled => exact .string spelled
  | number spelled => exact .number spelled
  | negative spelled => exact .negative spelled
  | array between =>
      exact .array (between.mono (Nat.le_refl _) fun short => weaken (by simp; omega))
  | object between =>
      exact .object (between.mono (Nat.le_refl _) fun short member =>
        member.mono short fun short => weaken (by simp; omega))

theorem SpellsTo.of_length {depth : Nat} {v : Json} (h : SpellsTo depth text v)
    (enough : text.length ≤ n) : SpellsTo n text v := by
  induction n generalizing depth text v with
  | zero =>
      cases depth <;> exact SpellsOf.mono h fun short => absurd short (by omega)
  | succ n ih =>
      cases depth with
      | zero => exact SpellsOf.mono h fun _ => False.elim
      | succ depth => exact SpellsOf.mono h fun short part => ih part (by omega)

/-- A text is read exactly if it spells a value, and as that value. -/
theorem ofText?_eq_some_iff {text : String} {v : Json} :
    ofText? text = some v ↔ Spells text.toList v := by
  have reads := value_reads text.toList.length
  rw [ofText?, Reader.whole_eq_some_iff]
  constructor
  · intro h
    rw [Reader.bind_eq_some_iff] at h
    obtain ⟨v, mid, read, h⟩ := h
    rw [Reader.bind_eq_some_iff] at h
    obtain ⟨_, mid', spaced, h⟩ := h
    obtain ⟨rfl, rfl⟩ := Reader.pure_eq_some_iff.1 h
    obtain ⟨led, spelled, same⟩ := reads.sound read
    obtain ⟨blank, hb, rfl⟩ := space_eq_some spaced
    rw [List.append_nil] at same
    exact ⟨_, led, blank, spelled, hb, same⟩
  · rintro ⟨depth, spelled⟩
    obtain ⟨led, blank, spelled, hb, same⟩ :=
      spelled.mono (Nat.le_refl _) fun short part => part.of_length short
    have stops : Stops (blank ++ []) := Stops.append_blank hb nofun
    have spaced : space (blank ++ []) = some ((), []) := space_append hb nofun
    rw [List.append_nil] at stops spaced
    have read := reads.complete spelled stops
    rw [← same] at read
    rw [Reader.bind_of_eq_some read, Reader.bind_of_eq_some spaced]
    rfl

end ScriptImports.Json
