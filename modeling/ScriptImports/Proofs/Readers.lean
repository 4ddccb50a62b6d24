import ScriptImports.Text.Reader

/-!
What readers take off a text and what they leave. Readers that are run one after the other divide the
text among them; a reader for characters of a class takes all of them up to the first that is not in
the class.
-/
namespace ScriptImports.Text.Reader

variable {α β : Type} {r : Reader α} {k : α → Reader β} {cs mid rest : List Char} {c : Char}

theorem bind_eq_some_iff {b : β} :
    (r >>= k) cs = some (b, rest) ↔ ∃ a mid, r cs = some (a, mid) ∧ k a mid = some (b, rest) := by
  change ((r cs).bind fun p => k p.1 p.2) = some (b, rest) ↔ _
  rw [Option.bind_eq_some_iff]
  exact ⟨fun ⟨p, first, second⟩ => ⟨p.1, p.2, first, second⟩,
    fun ⟨a, mid, first, second⟩ => ⟨(a, mid), first, second⟩⟩

theorem bind_of_eq_some {a : α} (first : r cs = some (a, mid)) : (r >>= k) cs = k a mid := by
  change ((r cs).bind fun p => k p.1 p.2) = _
  rw [first, Option.bind_some]

theorem bind_of_eq_none (first : r cs = none) : (r >>= k) cs = none := by
  change ((r cs).bind fun p => k p.1 p.2) = _
  rw [first, Option.bind_none]

theorem pure_eq_some_iff {a b : α} :
    (pure a : Reader α) cs = some (b, rest) ↔ a = b ∧ cs = rest := by
  change some (a, cs) = some (b, rest) ↔ _
  rw [Option.some.injEq, Prod.mk.injEq]

theorem map_eq_some_iff {f : α → β} {b : β} :
    (f <$> r) cs = some (b, rest) ↔ ∃ a, r cs = some (a, rest) ∧ f a = b := by
  change ((r cs).bind fun p => some (f p.1, p.2)) = some (b, rest) ↔ _
  rw [Option.bind_eq_some_iff]
  constructor
  · rintro ⟨⟨a, _⟩, read, ⟨⟩⟩
    exact ⟨a, read, rfl⟩
  · rintro ⟨a, read, rfl⟩
    exact ⟨(a, rest), read, rfl⟩

theorem next_eq_some_iff {p : Char → Bool} :
    next p cs = some (c, rest) ↔ cs = c :: rest ∧ p c = true := by
  cases cs with
  | nil => simp [next]
  | cons d ds =>
      rw [next]
      by_cases fits : p d = true
      · rw [if_pos fits]
        constructor
        · rintro ⟨⟩
          exact ⟨rfl, fits⟩
        · rintro ⟨⟨⟩, _⟩
          rfl
      · rw [if_neg fits]
        refine ⟨nofun, ?_⟩
        rintro ⟨⟨⟩, other⟩
        exact absurd other fits

theorem next_eq_none {p : Char → Bool} (other : ∀ c, cs.head? = some c → p c = false) :
    next p cs = none := by
  cases cs with
  | nil => rfl
  | cons d ds => rw [next, if_neg (by simp [other d rfl])]

theorem char_eq_some_iff {u : Unit} : char c cs = some (u, rest) ↔ cs = c :: rest := by
  rw [char, bind_eq_some_iff]
  constructor
  · rintro ⟨d, mid, first, second⟩
    obtain ⟨rfl, same⟩ := next_eq_some_iff.1 first
    obtain ⟨_, rfl⟩ := pure_eq_some_iff.1 second
    rw [beq_iff_eq.1 same]
  · rintro rfl
    exact ⟨c, rest, next_eq_some_iff.2 ⟨rfl, beq_self_eq_true c⟩, rfl⟩

theorem char_cons : char c (c :: rest) = some ((), rest) := char_eq_some_iff.2 rfl

theorem char_eq_none (other : cs.head? ≠ some c) : char c cs = none := by
  apply bind_of_eq_none
  apply next_eq_none
  rintro d front
  rw [beq_eq_false_iff_ne]
  rintro rfl
  exact other front

theorem literal_eq_some_iff {s : String} {u : Unit} :
    literal s cs = some (u, rest) ↔ cs = s.toList ++ rest := by
  rw [literal]
  constructor
  · intro h
    split at h
    · next starts =>
        cases h
        obtain ⟨more, rfl⟩ := List.isPrefixOf_iff_prefix.1 starts
        rw [List.drop_left]
    · cases h
  · rintro rfl
    rw [if_pos (List.isPrefixOf_iff_prefix.2 (List.prefix_append _ _)), List.drop_left]

/-- All of a run is taken, where no more of its characters follow. -/
theorem span_append {p : Char → Bool} {run : List Char} (all : ∀ c ∈ run, p c = true)
    (ends : ∀ c, rest.head? = some c → p c = false) :
    (run ++ rest).takeWhile p = run ∧ (run ++ rest).dropWhile p = rest := by
  rw [List.takeWhile_append_of_pos all, List.dropWhile_append_of_pos all]
  cases rest with
  | nil => simp
  | cons c rest => simp [ends c rfl]

theorem takeWhile_append {p : Char → Bool} {run : List Char} (all : ∀ c ∈ run, p c = true)
    (ends : ∀ c, rest.head? = some c → p c = false) :
    takeWhile p (run ++ rest) = some (run, rest) := by
  rw [takeWhile, (span_append all ends).1, (span_append all ends).2]

theorem takeWhile_eq_some {p : Char → Bool} {run : List Char}
    (h : takeWhile p cs = some (run, rest)) : cs = run ++ rest ∧ ∀ c ∈ run, p c = true := by
  cases h
  exact ⟨List.takeWhile_append_dropWhile.symm, fun c hc => List.all_eq_true.1 List.all_takeWhile c hc⟩

theorem takeSome_append {p : Char → Bool} {run : List Char} (nonempty : run ≠ [])
    (all : ∀ c ∈ run, p c = true) (ends : ∀ c, rest.head? = some c → p c = false) :
    takeSome p (run ++ rest) = some (run, rest) := by
  obtain ⟨c, run, rfl⟩ := List.exists_cons_of_ne_nil nonempty
  rw [List.forall_mem_cons] at all
  rw [takeSome, List.cons_append, bind_of_eq_some (next_eq_some_iff.2 ⟨rfl, all.1⟩),
    bind_of_eq_some (takeWhile_append all.2 ends)]
  rfl

theorem takeSome_eq_some {p : Char → Bool} {run : List Char}
    (h : takeSome p cs = some (run, rest)) :
    cs = run ++ rest ∧ run ≠ [] ∧ ∀ c ∈ run, p c = true := by
  rw [takeSome, bind_eq_some_iff] at h
  obtain ⟨c, mid, first, h⟩ := h
  obtain ⟨more, mid', second, h⟩ := bind_eq_some_iff.1 h
  obtain ⟨rfl, rfl⟩ := pure_eq_some_iff.1 h
  obtain ⟨rfl, fits⟩ := next_eq_some_iff.1 first
  obtain ⟨rfl, all⟩ := takeWhile_eq_some second
  exact ⟨rfl, List.cons_ne_nil _ _, List.forall_mem_cons.2 ⟨fits, all⟩⟩

theorem option_eq_some_iff {o : Option α} :
    option r cs = some (o, rest) ↔
      (∃ a, o = some a ∧ r cs = some (a, rest)) ∨ (o = none ∧ r cs = none ∧ cs = rest) := by
  rw [option]
  cases r cs with
  | none => simp [eq_comm]
  | some p =>
      constructor
      · rintro ⟨⟩
        exact Or.inl ⟨_, rfl, rfl⟩
      · rintro (⟨a, rfl, ⟨⟩⟩ | ⟨_, nothing, _⟩)
        · rfl
        · cases nothing

theorem manyUpTo_succ {a : α} {as : List α} {n : Nat} (first : r cs = some (a, mid))
    (more : manyUpTo n r mid = some (as, rest)) :
    manyUpTo (n + 1) r cs = some (a :: as, rest) := by
  simp only [manyUpTo, first]
  exact map_eq_some_iff.2 ⟨as, more, rfl⟩

theorem manyUpTo_of_eq_none (first : r cs = none) (n : Nat) :
    manyUpTo n r cs = some ([], cs) := by
  cases n with
  | zero => rfl
  | succ n => simp only [manyUpTo, first]

theorem manyUpTo_eq_some {as : List α} {n : Nat} (h : manyUpTo (n + 1) r cs = some (as, rest)) :
    (∃ a mid more, r cs = some (a, mid) ∧ manyUpTo n r mid = some (more, rest) ∧ as = a :: more) ∨
      (as = [] ∧ cs = rest) := by
  simp only [manyUpTo] at h
  split at h
  · next a mid first =>
      obtain ⟨more, second, rfl⟩ := map_eq_some_iff.1 h
      exact Or.inl ⟨a, mid, more, first, second, rfl⟩
  · cases h
    exact Or.inr ⟨rfl, rfl⟩

theorem whole_eq_some_iff {a : α} : whole r cs = some a ↔ r cs = some (a, []) := by
  rw [whole]
  split <;> simp_all

end ScriptImports.Text.Reader
