/-! # Lines of a text

A newline ends a line, together with one carriage return right before it. What follows the last
newline is a line of its own unless it is empty.
-/

namespace BlockLang.Text

/-- A line as it stands before its newline, without the carriage return of its
ending. -/
def dropReturn (line : List Char) : List Char :=
  match line.reverse with
  | '\r' :: rest => rest.reverse
  | _ => line

/-- The lines of a text whose current line has so far read `line`, in
reverse. -/
def linesFrom (line : List Char) : List Char → List (List Char)
  | [] => if line.isEmpty then [] else [line.reverse]
  | c :: rest =>
    if c = '\n' then dropReturn line.reverse :: linesFrom [] rest
    else linesFrom (c :: line) rest

/-- The lines of a text, without their endings. What follows the last newline is
a line only if it is not empty. -/
def lines (s : String) : List String := (linesFrom [] s.toList).map String.ofList

end BlockLang.Text
