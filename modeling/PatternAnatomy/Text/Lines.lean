import PatternAnatomy.Text

namespace PatternAnatomy.Text

/-- A line feed ends a line, alone or behind a carriage return, and belongs to none. A text that
ends in one has no empty line after it. -/
def lines : Text → List Text
  | [] => []
  | '\n' :: cs => [] :: lines cs
  | '\r' :: '\n' :: cs => [] :: lines cs
  | c :: cs =>
    match lines cs with
    | [] => [[c]]
    | l :: ls => (c :: l) :: ls

end PatternAnatomy.Text
