import PatternAnatomy.Text

namespace PatternAnatomy

inductive Construct where
  | verbatim | anyChar | escape | range | charList | quantifier | group | groupName | alternation
deriving DecidableEq

namespace Construct

def name : Construct → Text
  | verbatim => "verbatim".toList
  | anyChar => "any character".toList
  | escape => "escape".toList
  | range => "range".toList
  | charList => "character list".toList
  | quantifier => "quantifier".toList
  | group => "group".toList
  | groupName => "group name".toList
  | alternation => "alternation".toList

/-- The construct that a character always opens. Verbatim runs and list members begin with anything
else, so no character opens those. -/
def openedBy? : Char → Option Construct
  | '(' => some group
  | '.' => some anyChar
  | '[' => some charList
  | '\\' => some escape
  | '*' | '+' | '{' => some quantifier
  | '|' => some alternation
  | _ => none

end Construct

end PatternAnatomy
