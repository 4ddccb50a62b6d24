/-!
Texts as the operating system has them: bytes that need not be UTF-8. Such a text is kept as the
characters it spells, with stretches of other bytes in between; it is shown with one replacement
character for each such stretch, so that different texts can look alike.
-/
namespace ScriptImports

/-- Bytes that spell no character and are shown as one: the start of a character that breaks off, as
far as it goes, or a single byte that starts none. An ASCII byte is always a character. -/
structure Stray where
  bytes : List UInt8
  nonempty : bytes ≠ []
  high : ∀ b ∈ bytes, 0x80 ≤ b
deriving DecidableEq

inductive PathChar where
  | char (c : Char)
  | stray (s : Stray)
deriving DecidableEq

namespace PathChar

/-- The character that stands for bytes that spell none. -/
def replacement : Char := '\uFFFD'

def shown : PathChar → Char
  | char c => c
  | stray _ => replacement

/-- The number of its bytes. -/
def size : PathChar → Nat
  | char c => c.utf8Size
  | stray s => s.bytes.length

end PathChar

/-- Not every such list is how its bytes divide into characters and strays; what holds of all lists
holds of those that are. -/
abbrev PathText := List PathChar

namespace PathText

def ofString (s : String) : PathText := s.toList.map PathChar.char

@[simp] theorem ofString_empty : ofString "" = [] := rfl

@[simp] theorem char_mem_ofString (c : Char) (s : String) : .char c ∈ ofString s ↔ c ∈ s.toList := by
  simp [ofString]

@[simp] theorem ofString_eq_nil (s : String) : ofString s = [] ↔ s = "" := by
  simp [ofString]

theorem ofString_inj {s t : String} : ofString s = ofString t ↔ s = t := by
  rw [ofString, ofString, List.map_inj_right fun _ _ => PathChar.char.inj, String.toList_inj]

theorem ofString_append (s t : String) : ofString (s ++ t) = ofString s ++ ofString t := by
  simp [ofString]

/-- The text as it is printed. -/
def shown (t : PathText) : String := String.ofList (t.map PathChar.shown)

theorem toList_shown (t : PathText) : t.shown.toList = t.map PathChar.shown := by
  rw [shown, String.toList_ofList]

@[simp] theorem map_shown_ofString (s : String) : (ofString s).map PathChar.shown = s.toList := by
  simp [ofString, Function.comp_def, PathChar.shown]

theorem shown_ofString (s : String) : shown (ofString s) = s := by
  rw [shown, map_shown_ofString, String.ofList_toList]

end PathText

end ScriptImports
