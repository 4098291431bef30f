/-!
# Lines of a text

A line ends before a line feed, and a single carriage return directly before that
line feed belongs to the ending and not to the line. A text that ends with a line
feed has no further, empty line behind it.
-/

namespace CircuitBench.Text

/-- A line without the one carriage return that its ending may contribute. -/
def dropReturn (line : List Char) : List Char :=
  if line.getLast? = some '\r' then line.dropLast else line

/-- The lines of a text, where `current` holds the characters already read of the
first line, newest first. A last line without a line feed keeps a final carriage
return, because that return is not part of an ending. -/
def linesFrom (current : List Char) : List Char → List (List Char)
  | [] => if current.isEmpty then [] else [current.reverse]
  | c :: rest =>
    if c = '\n' then dropReturn current.reverse :: linesFrom [] rest
    else linesFrom (c :: current) rest

def lines (text : List Char) : List (List Char) :=
  linesFrom [] text

@[simp] theorem lines_nil : lines [] = [] := rfl

end CircuitBench.Text
