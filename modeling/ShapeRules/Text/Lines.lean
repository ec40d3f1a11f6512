/-!
# Lines of a text

A line ends at a newline, and one carriage return before the newline belongs to the line end. The
text after the last newline is a line of its own unless it is empty; there a final carriage return
is kept, since no newline follows it.

## Main definitions

* `lines`: the lines of a text, without their ends
-/

namespace ShapeRules.Text

/-- A line without the carriage return of its end. -/
def dropReturn (line : List Char) : List Char :=
  if line.getLast? = some '\r' then line.dropLast else line

/-- The lines of a text, without their ends. -/
def lineChars (cs : List Char) : List (List Char) :=
  let pieces := cs.splitOn '\n'
  pieces.dropLast.map dropReturn ++ pieces.getLast?.toList.filter (!·.isEmpty)

/-- The lines of a text, without their ends. -/
def lines (s : String) : List String :=
  (lineChars s.toList).map String.ofList

end ShapeRules.Text
