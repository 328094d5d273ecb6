/-!
# Lines of text

A line ends with a line feed, or with a carriage return and a line feed.  The text after the last
line end is a line of its own unless it is empty.
-/

namespace MonkeySyntax

/-- The lines of a text given by its characters, without their ends. -/
def splitLines : List Char → List (List Char)
  | [] => []
  | '\n' :: rest => [] :: splitLines rest
  | '\r' :: '\n' :: rest => [] :: splitLines rest
  | char :: rest =>
      match splitLines rest with
      | [] => [[char]]
      | line :: lines => (char :: line) :: lines

/-- The lines of a text, without their ends. -/
def linesOf (text : String) : List String :=
  (splitLines text.toList).map String.ofList

end MonkeySyntax
