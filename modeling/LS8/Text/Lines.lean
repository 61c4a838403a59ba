/-! Division of a text into lines. -/
namespace LS8.Text

/-- Removes one carriage return at the end. -/
def chopReturn (line : List Char) : List Char :=
  if line.getLast? = some '\r' then line.dropLast else line

/-- A line ends at a newline, with or without a carriage return right before it. What follows the
last newline is a line too unless it is empty, and keeps its carriage return. -/
def lines (text : List Char) : List (List Char) :=
  let pieces := text.splitOn '\n'
  pieces.dropLast.map chopReturn ++ pieces.getLast?.toList.filter (· ≠ [])

@[simp] theorem lines_nil : lines [] = [] := by
  simp [lines, List.splitOn_nil]

/-- The first line and the lines of the rest. -/
theorem lines_append_newline {line : List Char} (h : '\n' ∉ line) (rest : List Char) :
    lines (line ++ '\n' :: rest) = chopReturn line :: lines rest := by
  have hr := List.splitOn_ne_nil '\n' rest
  simp [lines, List.splitOn_append_cons_self_of_not_mem h, List.dropLast_cons_of_ne_nil hr,
    List.getLast?_cons, List.getLast?_eq_some_getLast hr]

/-- A text without a newline is one line, or none if it is empty. -/
theorem lines_of_not_mem {line : List Char} (h : '\n' ∉ line) :
    lines line = if line = [] then [] else [line] := by
  by_cases hl : line = [] <;> simp [lines, List.splitOn_eq_singleton h, hl]

end LS8.Text
