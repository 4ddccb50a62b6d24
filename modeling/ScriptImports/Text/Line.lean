/-!
The lines of a text. A line ends at a line feed; the line feed, and one carriage return before it,
belong to no line. A carriage return that no line feed follows is part of its line, and a text that
ends in a line feed has no empty line after it.
-/
namespace ScriptImports.Text

def lines : List Char → List (List Char)
  | [] => []
  | '\n' :: cs => [] :: lines cs
  | '\r' :: '\n' :: cs => [] :: lines cs
  | c :: cs =>
    match lines cs with
    | [] => [[c]]
    | line :: more => (c :: line) :: more

theorem lines_eq_nil_iff {cs : List Char} : lines cs = [] ↔ cs = [] := by
  fun_cases lines cs <;> simp_all

end ScriptImports.Text
