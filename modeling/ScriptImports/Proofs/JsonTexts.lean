import ScriptImports.Json.Reader
import ScriptImports.Proofs.Readers

/-!
The grammar of JSON texts, and the reader against it: a text is read as a value exactly if it spells
that value. The grammar says what stands between brackets by lists whose items are divided by commas,
with white space around each token, and knows nothing of readers, of where they stop or of how deep
they go.
-/
namespace ScriptImports.Json

open Text

/-- White space between two tokens. -/
def Blank (cs : List Char) : Prop := ∀ c ∈ cs, c = ' ' ∨ c = '\t' ∨ c = '\n' ∨ c = '\r'

/-- The text between the quotes of a string, and the characters and code units it stands for. -/
inductive SpellsUnits : List Char → List (Char ⊕ Nat) → Prop
  | nil : SpellsUnits [] []
  | plain {c : Char} {text : List Char} {units : List (Char ⊕ Nat)} : c ≠ '"' → c ≠ '\\' →
    0x20 ≤ c.toNat → SpellsUnits text units → SpellsUnits (c :: text) (.inl c :: units)
  | escaped {e c : Char} {text : List Char} {units : List (Char ⊕ Nat)} : escape? e = some c →
    SpellsUnits text units → SpellsUnits ('\\' :: e :: text) (.inl c :: units)
  | codeUnit {a b c d : Char} {u : Nat} {text : List Char} {units : List (Char ⊕ Nat)} :
    codeUnit? a b c d = some u → SpellsUnits text units →
    SpellsUnits ('\\' :: 'u' :: a :: b :: c :: d :: text) (.inr u :: units)

/-- A string with its quotes. Without a character for half of a surrogate pair it has no text. -/
def SpellsString (text : List Char) (s : Option String) : Prop :=
  ∃ body units, SpellsUnits body units ∧ s = (characters? units).map String.ofList ∧
    text = '"' :: body ++ ['"']

def Digits (ds : List Char) : Prop := ∀ d ∈ ds, d.isDigit = true

/-- Either a single zero, or digits of which the first is none. -/
def SpellsWhole (ds : List Char) : Prop :=
  ds = ['0'] ∨ ∃ d more, ds = d :: more ∧ d ≠ '0' ∧ Digits ds

def SpellsFraction (text digits : List Char) : Prop :=
  text = [] ∧ digits = [] ∨ text = '.' :: digits ∧ digits ≠ [] ∧ Digits digits

inductive SpellsExponent : List Char → Int → Prop
  | absent : SpellsExponent [] 0
  | unsigned {e : Char} {ds : List Char} : e = 'e' ∨ e = 'E' → ds ≠ [] → Digits ds →
    SpellsExponent (e :: ds) (ofDigits 10 ds)
  | positive {e : Char} {ds : List Char} : e = 'e' ∨ e = 'E' → ds ≠ [] → Digits ds →
    SpellsExponent (e :: '+' :: ds) (ofDigits 10 ds)
  | negative {e : Char} {ds : List Char} : e = 'e' ∨ e = 'E' → ds ≠ [] → Digits ds →
    SpellsExponent (e :: '-' :: ds) (-(ofDigits 10 ds : Int))

/-- A number without its sign. -/
def SpellsNumber (text : List Char) (n : JsonNumber) : Prop :=
  ∃ fraction power, SpellsWhole n.whole ∧ SpellsFraction fraction n.fraction ∧
    SpellsExponent power n.exponent ∧ text = n.whole ++ fraction ++ power

section

variable {α : Type}

/-- The same after white space. -/
def Led (spells : List Char → α → Prop) (text : List Char) (a : α) : Prop :=
  ∃ before core, Blank before ∧ spells core a ∧ text = before ++ core

/-- The same between white space. -/
def Padded (spells : List Char → α → Prop) (text : List Char) (a : α) : Prop :=
  ∃ led after, Led spells led a ∧ Blank after ∧ text = led ++ after

/-- One or more items with commas between them. -/
inductive Listed (spells : List Char → α → Prop) : List Char → List α → Prop
  | last {text : List Char} {a : α} : Padded spells text a → Listed spells text [a]
  | cons {text more : List Char} {a : α} {as : List α} : Padded spells text a →
    Listed spells more as → Listed spells (text ++ ',' :: more) (a :: as)

/-- Nothing but white space, or items. -/
def Between (spells : List Char → α → Prop) (text : List Char) (as : List α) : Prop :=
  Blank text ∧ as = [] ∨ Listed spells text as

end

def SpellsMember (spells : List Char → Json → Prop) (text : List Char)
    (m : Option String × Json) : Prop :=
  ∃ key blank value, SpellsString key m.1 ∧ Blank blank ∧ Led spells value m.2 ∧
    text = key ++ blank ++ ':' :: value

/-- A value whose parts are spelled as `spells` says. -/
inductive SpellsOf (spells : List Char → Json → Prop) : List Char → Json → Prop
  | null : SpellsOf spells "null".toList .null
  | true : SpellsOf spells "true".toList (.boolean true)
  | false : SpellsOf spells "false".toList (.boolean false)
  | string {text : List Char} {s : Option String} : SpellsString text s →
    SpellsOf spells text (.string s)
  | number {text : List Char} {n : JsonNumber} : SpellsNumber text n →
    SpellsOf spells text (.number n)
  | negative {text : List Char} {n : JsonNumber} : SpellsNumber text n →
    SpellsOf spells ('-' :: text) (.number n)
  | array {text : List Char} {items : List Json} : Between spells text items →
    SpellsOf spells ('[' :: text ++ [']']) (.array items)
  | object {text : List Char} {members : List (Option String × Json)} :
    Between (SpellsMember spells) text members →
    SpellsOf spells ('\x7b' :: text ++ ['\x7d']) (.object members)

/-- A value of at most `depth` arrays and objects with items inside one another. -/
def SpellsTo : Nat → List Char → Json → Prop
  | 0 => SpellsOf fun _ _ => False
  | depth + 1 => SpellsOf (SpellsTo depth)

/-- The text spells the value. -/
def Spells (text : List Char) (v : Json) : Prop := ∃ depth, Padded (SpellsTo depth) text v

/-! White space. -/

theorem isSpace_iff {c : Char} :
    isSpace c = true ↔ c = ' ' ∨ c = '\t' ∨ c = '\n' ∨ c = '\r' := by
  simp [isSpace, or_assoc]

theorem blank_iff {cs : List Char} : Blank cs ↔ ∀ c ∈ cs, isSpace c = true := by
  simp only [Blank, isSpace_iff]

/-- Where the next token starts, or the text ends. -/
def Front (cs : List Char) : Prop := ∀ c, cs.head? = some c → isSpace c = false

theorem front_cons {c : Char} {cs : List Char} (other : isSpace c = false) : Front (c :: cs) := by
  rintro d ⟨⟩
  exact other

theorem space_append {blank rest : List Char} (hb : Blank blank) (front : Front rest) :
    space (blank ++ rest) = some ((), rest) := by
  rw [space, Reader.skipWhile, (Reader.span_append (blank_iff.1 hb) front).2]

theorem space_front {cs : List Char} (front : Front cs) : space cs = some ((), cs) :=
  space_append (show Blank [] from nofun) front

/-- Every text is white space before a token. -/
theorem exists_blank (cs : List Char) :
    ∃ blank mid, Blank blank ∧ Front mid ∧ space cs = some ((), mid) ∧ cs = blank ++ mid := by
  refine ⟨cs.takeWhile isSpace, cs.dropWhile isSpace, blank_iff.2 fun c hc => ?_, fun c front => ?_,
    rfl, List.takeWhile_append_dropWhile.symm⟩
  · exact List.all_eq_true.1 List.all_takeWhile c hc
  · have stopped := List.head?_dropWhile_not isSpace cs
    rw [front] at stopped
    exact stopped

theorem space_eq_some {cs rest : List Char} {u : Unit} (h : space cs = some (u, rest)) :
    ∃ blank, Blank blank ∧ cs = blank ++ rest := by
  obtain ⟨blank, mid, hb, _, spaced, same⟩ := exists_blank cs
  rw [spaced] at h
  cases h
  exact ⟨blank, hb, same⟩

/-! Strings. -/

theorem stringUnits?_eq_some {cs rest : List Char} {units : List (Char ⊕ Nat)}
    (h : stringUnits? cs = some (units, rest)) :
    ∃ body, SpellsUnits body units ∧ cs = body ++ '"' :: rest := by
  fun_induction stringUnits? cs generalizing units with
  | case1 => cases h
  | case2 cs =>
      cases h
      exact ⟨[], .nil, rfl⟩
  | case3 a b c d cs ih =>
      obtain ⟨u, unit, h⟩ := Option.bind_eq_some_iff.1 h
      obtain ⟨⟨units, _⟩, more, same⟩ := Option.map_eq_some_iff.1 h
      cases same
      obtain ⟨body, spells, rfl⟩ := ih more
      exact ⟨_, .codeUnit unit spells, rfl⟩
  | case4 e cs _ ih =>
      obtain ⟨c, escape, h⟩ := Option.bind_eq_some_iff.1 h
      obtain ⟨⟨units, _⟩, more, same⟩ := Option.map_eq_some_iff.1 h
      cases same
      obtain ⟨body, spells, rfl⟩ := ih more
      exact ⟨_, .escaped escape spells, rfl⟩
  | case5 => cases h
  | case6 c cs quote _ _ plain ih =>
      obtain ⟨⟨units, _⟩, more, same⟩ := Option.map_eq_some_iff.1 h
      cases same
      obtain ⟨body, spells, rfl⟩ := ih more
      rw [not_or, Nat.not_lt] at plain
      exact ⟨_, .plain quote plain.2 plain.1 spells, rfl⟩

theorem stringUnits?_append {body : List Char} {units : List (Char ⊕ Nat)}
    (spells : SpellsUnits body units) (rest : List Char) :
    stringUnits? (body ++ '"' :: rest) = some (units, rest) := by
  induction spells with
  | nil => rfl
  | @plain c text units quote backslash large _ ih =>
      have plain : ¬ (c.toNat < 0x20 ∨ c = '\\') := by
        rw [not_or, Nat.not_lt]
        exact ⟨large, backslash⟩
      rw [List.cons_append, stringUnits?.eq_5 _ _ quote (fun _ _ _ _ _ same _ => backslash same)
        (fun _ _ same _ => backslash same), if_neg plain, ih]
      rfl
  | @escaped e c text units escape _ ih =>
      have other : e ≠ 'u' := by
        rintro rfl
        cases escape
      rw [List.cons_append, List.cons_append,
        stringUnits?.eq_4 _ _ (fun _ _ _ _ _ same _ => other same), escape, Option.bind_some, ih]
      rfl
  | codeUnit unit _ ih =>
      simp only [List.cons_append, stringUnits?, unit, Option.bind_some, ih, Option.map_some]

/-- The body of a string is read up to its closing quote. -/
theorem stringBody_eq_some {cs rest : List Char} {s : Option String}
    (h : stringBody cs = some (s, rest)) :
    ∃ body units, SpellsUnits body units ∧ s = (characters? units).map String.ofList ∧
      cs = body ++ '"' :: rest := by
  obtain ⟨⟨units, rest'⟩, read, same⟩ := Option.map_eq_some_iff.1 h
  cases same
  obtain ⟨body, spells, rfl⟩ := stringUnits?_eq_some read
  exact ⟨body, units, spells, rfl, rfl⟩

theorem stringBody_append {body : List Char} {units : List (Char ⊕ Nat)}
    (spells : SpellsUnits body units) (rest : List Char) :
    stringBody (body ++ '"' :: rest) = some ((characters? units).map String.ofList, rest) := by
  rw [stringBody, stringUnits?_append spells]
  rfl

/-! Numbers. -/

/-- What cannot go on with a number. -/
def Stops (cs : List Char) : Prop :=
  ∀ c, cs.head? = some c → c.isDigit = false ∧ c ≠ '.' ∧ c ≠ 'e' ∧ c ≠ 'E'

theorem stops_cons {c : Char} {cs : List Char}
    (other : c.isDigit = false ∧ c ≠ '.' ∧ c ≠ 'e' ∧ c ≠ 'E') : Stops (c :: cs) := by
  rintro d ⟨⟩
  exact other

theorem Stops.append_blank {blank rest : List Char} (hb : Blank blank) (stops : Stops rest) :
    Stops (blank ++ rest) := by
  cases blank with
  | nil => exact stops
  | cons c blank =>
      apply stops_cons
      rcases hb c List.mem_cons_self with rfl | rfl | rfl | rfl <;> decide

theorem wholeDigits_eq_some {cs rest ds : List Char} (h : wholeDigits cs = some (ds, rest)) :
    SpellsWhole ds ∧ cs = ds ++ rest := by
  rw [wholeDigits, Reader.bind_eq_some_iff] at h
  obtain ⟨d, mid, first, h⟩ := h
  obtain ⟨rfl, digit⟩ := Reader.next_eq_some_iff.1 first
  split at h
  · next zero =>
      obtain ⟨rfl, rfl⟩ := Reader.pure_eq_some_iff.1 h
      exact ⟨Or.inl rfl, by rw [zero]; rfl⟩
  · next other =>
      rw [Reader.bind_eq_some_iff] at h
      obtain ⟨more, mid', second, h⟩ := h
      obtain ⟨rfl, rfl⟩ := Reader.pure_eq_some_iff.1 h
      obtain ⟨rfl, all⟩ := Reader.takeWhile_eq_some second
      exact ⟨Or.inr ⟨d, more, rfl, other, List.forall_mem_cons.2 ⟨digit, all⟩⟩, rfl⟩

theorem wholeDigits_append {ds rest : List Char} (spells : SpellsWhole ds)
    (ends : ∀ c, rest.head? = some c → c.isDigit = false) :
    wholeDigits (ds ++ rest) = some (ds, rest) := by
  rw [wholeDigits]
  rcases spells with rfl | ⟨d, more, rfl, other, digits⟩
  · rfl
  · rw [Digits, List.forall_mem_cons] at digits
    rw [List.cons_append, Reader.bind_of_eq_some (Reader.next_eq_some_iff.2 ⟨rfl, digits.1⟩),
      if_neg other, Reader.bind_of_eq_some (Reader.takeWhile_append digits.2 ends)]
    rfl

theorem fractionDigits_eq_some {cs rest ds : List Char} (h : fractionDigits cs = some (ds, rest)) :
    ds ≠ [] ∧ Digits ds ∧ cs = '.' :: ds ++ rest := by
  rw [fractionDigits, Reader.bind_eq_some_iff] at h
  obtain ⟨_, mid, point, h⟩ := h
  obtain rfl := Reader.char_eq_some_iff.1 point
  obtain ⟨rfl, nonempty, digits⟩ := Reader.takeSome_eq_some h
  exact ⟨nonempty, digits, rfl⟩

theorem fraction_append {text ds rest : List Char} (spells : SpellsFraction text ds)
    (ends : ∀ c, rest.head? = some c → c.isDigit = false ∧ c ≠ '.') :
    ∃ read, Reader.option fractionDigits (text ++ rest) = some (read, rest) ∧ read.getD [] = ds := by
  rcases spells with ⟨rfl, rfl⟩ | ⟨rfl, nonempty, digits⟩
  · refine ⟨none, Reader.option_eq_some_iff.2 (Or.inr ⟨rfl, ?_, rfl⟩), rfl⟩
    apply Reader.bind_of_eq_none
    apply Reader.char_eq_none
    exact fun point => (ends _ point).2 rfl
  · refine ⟨some ds, Reader.option_eq_some_iff.2 (Or.inl ⟨ds, rfl, ?_⟩), rfl⟩
    rw [fractionDigits, List.cons_append, Reader.bind_of_eq_some Reader.char_cons]
    exact Reader.takeSome_append nonempty digits fun c front => (ends c front).1

theorem exponent_eq_some {cs rest : List Char} {n : Int} (h : exponent cs = some (n, rest)) :
    ∃ text, SpellsExponent text n ∧ cs = text ++ rest := by
  rw [exponent, Reader.bind_eq_some_iff] at h
  obtain ⟨e, mid, first, h⟩ := h
  obtain ⟨rfl, mark⟩ := Reader.next_eq_some_iff.1 first
  rw [Bool.or_eq_true, beq_iff_eq, beq_iff_eq] at mark
  rw [Reader.bind_eq_some_iff] at h
  obtain ⟨sign, mid', signed, h⟩ := h
  rw [Reader.bind_eq_some_iff] at h
  obtain ⟨ds, mid'', run, h⟩ := h
  obtain ⟨rfl, rfl⟩ := Reader.pure_eq_some_iff.1 h
  obtain ⟨rfl, nonempty, digits⟩ := Reader.takeSome_eq_some run
  rcases Reader.option_eq_some_iff.1 signed with ⟨c, rfl, taken⟩ | ⟨rfl, _, rfl⟩
  · obtain ⟨rfl, sign⟩ := Reader.next_eq_some_iff.1 taken
    rw [Bool.or_eq_true, beq_iff_eq, beq_iff_eq] at sign
    rcases sign with rfl | rfl
    · exact ⟨_, .positive mark nonempty digits, rfl⟩
    · exact ⟨_, .negative mark nonempty digits, rfl⟩
  · exact ⟨_, .unsigned mark nonempty digits, rfl⟩

/-- The sign and the digits of an exponent, which its mark stands in front of. -/
theorem exponent_cons {e : Char} {cs rest ds : List Char} {sign : Option Char}
    (mark : e = 'e' ∨ e = 'E')
    (signed : Reader.option (Reader.next fun c => c == '+' || c == '-') cs = some (sign, ds ++ rest))
    (nonempty : ds ≠ []) (digits : Digits ds)
    (ends : ∀ c, rest.head? = some c → c.isDigit = false) :
    exponent (e :: cs) =
      some (if sign = some '-' then -(ofDigits 10 ds : Int) else ofDigits 10 ds, rest) := by
  have first : Reader.next (fun c => c == 'e' || c == 'E') (e :: cs) = some (e, cs) := by
    apply Reader.next_eq_some_iff.2
    rw [Bool.or_eq_true, beq_iff_eq, beq_iff_eq]
    exact ⟨rfl, mark⟩
  rw [exponent, Reader.bind_of_eq_some first, Reader.bind_of_eq_some signed,
    Reader.bind_of_eq_some (Reader.takeSome_append nonempty digits ends)]
  rfl

theorem exponent_append {text rest : List Char} {n : Int} (spells : SpellsExponent text n)
    (stops : Stops rest) :
    ∃ read, Reader.option exponent (text ++ rest) = some (read, rest) ∧ read.getD 0 = n := by
  have ends : ∀ c, rest.head? = some c → c.isDigit = false := fun c front => (stops c front).1
  cases spells with
  | absent =>
      refine ⟨none, Reader.option_eq_some_iff.2 (Or.inr ⟨rfl, ?_, rfl⟩), rfl⟩
      apply Reader.bind_of_eq_none
      apply Reader.next_eq_none
      intro c front
      obtain ⟨_, _, lower, upper⟩ := stops c front
      simp [lower, upper]
  | @unsigned e ds mark nonempty digits =>
      have signed : Reader.option (Reader.next fun c => c == '+' || c == '-') (ds ++ rest) =
          some (none, ds ++ rest) := by
        refine Reader.option_eq_some_iff.2 (Or.inr ⟨rfl, Reader.next_eq_none ?_, rfl⟩)
        obtain ⟨d, more, rfl⟩ := List.exists_cons_of_ne_nil nonempty
        rintro c ⟨⟩
        rw [Bool.or_eq_false_iff, beq_eq_false_iff_ne, beq_eq_false_iff_ne]
        have digit : d.isDigit = true := digits d List.mem_cons_self
        constructor <;> rintro rfl <;> cases digit
      exact ⟨_, Reader.option_eq_some_iff.2
        (Or.inl ⟨_, rfl, exponent_cons mark signed nonempty digits ends⟩), rfl⟩
  | positive mark nonempty digits =>
      exact ⟨_, Reader.option_eq_some_iff.2
        (Or.inl ⟨_, rfl, exponent_cons mark rfl nonempty digits ends⟩), rfl⟩
  | negative mark nonempty digits =>
      exact ⟨_, Reader.option_eq_some_iff.2
        (Or.inl ⟨_, rfl, exponent_cons mark rfl nonempty digits ends⟩), rfl⟩

theorem digits_eq_some {cs rest : List Char} {n : JsonNumber} (h : digits cs = some (n, rest)) :
    ∃ text, SpellsNumber text n ∧ cs = text ++ rest := by
  rw [digits, Reader.bind_eq_some_iff] at h
  obtain ⟨ds, mid, first, h⟩ := h
  obtain ⟨whole, rfl⟩ := wholeDigits_eq_some first
  rw [Reader.bind_eq_some_iff] at h
  obtain ⟨fraction, mid', second, h⟩ := h
  rw [Reader.bind_eq_some_iff] at h
  obtain ⟨power, mid'', third, h⟩ := h
  obtain ⟨rfl, rfl⟩ := Reader.pure_eq_some_iff.1 h
  have fractional : ∃ text, SpellsFraction text (fraction.getD []) ∧ mid = text ++ mid' := by
    rcases Reader.option_eq_some_iff.1 second with ⟨digits, rfl, taken⟩ | ⟨rfl, _, rfl⟩
    · obtain ⟨nonempty, all, rfl⟩ := fractionDigits_eq_some taken
      exact ⟨_, Or.inr ⟨rfl, nonempty, all⟩, rfl⟩
    · exact ⟨[], Or.inl ⟨rfl, rfl⟩, rfl⟩
  have scaled : ∃ text, SpellsExponent text (power.getD 0) ∧ mid' = text ++ mid'' := by
    rcases Reader.option_eq_some_iff.1 third with ⟨n, rfl, taken⟩ | ⟨rfl, _, rfl⟩
    · exact exponent_eq_some taken
    · exact ⟨[], .absent, rfl⟩
  obtain ⟨point, fractional, rfl⟩ := fractional
  obtain ⟨mark, scaled, rfl⟩ := scaled
  exact ⟨ds ++ point ++ mark, ⟨point, mark, whole, fractional, scaled, rfl⟩, by simp⟩

/-- The longest number is taken, where nothing follows that could go on with it. -/
theorem digits_append {text rest : List Char} {n : JsonNumber} (spells : SpellsNumber text n)
    (stops : Stops rest) : digits (text ++ rest) = some (n, rest) := by
  obtain ⟨point, mark, whole, fractional, scaled, rfl⟩ := spells
  have power : ∀ c, (mark ++ rest).head? = some c → c.isDigit = false ∧ c ≠ '.' := by
    generalize n.exponent = power at scaled
    cases scaled with
    | absent => exact fun c front => ⟨(stops c front).1, (stops c front).2.1⟩
    | unsigned marks | positive marks | negative marks =>
        rintro c ⟨⟩
        rcases marks with rfl | rfl <;> decide
  have fraction : ∀ c, (point ++ (mark ++ rest)).head? = some c → c.isDigit = false := by
    rcases fractional with ⟨rfl, _⟩ | ⟨rfl, _⟩
    · exact fun c front => (power c front).1
    · rintro c ⟨⟩
      rfl
  obtain ⟨read, second, same⟩ := fraction_append fractional power
  obtain ⟨read', third, same'⟩ := exponent_append scaled stops
  rw [List.append_assoc, List.append_assoc, digits,
    Reader.bind_of_eq_some (wholeDigits_append whole fraction), Reader.bind_of_eq_some second,
    Reader.bind_of_eq_some third, same, same']
  rfl

end ScriptImports.Json
