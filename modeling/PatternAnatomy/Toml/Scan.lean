import PatternAnatomy.Text.Digit

namespace PatternAnatomy.Toml

abbrev Scan := StateT Text Option

namespace Scan

def satisfying (test : Char → Bool) : Scan Char
  | c :: cs => if test c then some (c, cs) else none
  | [] => none

def char (c : Char) : Scan Char := satisfying (· == c)

def exactly (w : Text) : Scan Unit := fun s => (w.isPrefixOf? s).map fun rest => ((), rest)

def takeWhile (test : Char → Bool) : Scan Text := fun s => some (s.takeWhile test, s.dropWhile test)

/-- Fails where `p` would succeed, and takes nothing. -/
def notAhead (p : Scan α) : Scan Unit := fun s => if (p s).isSome then none else some ((), s)

def atEnd : Scan Unit := fun s => if s.isEmpty then some ((), s) else none

def upTo (p : Scan α) : Nat → Scan (List α)
  | 0 => pure []
  | n + 1 => (do return (← p) :: (← upTo p n)) <|> pure []

def many (p : Scan α) : Scan (List α) := fun s => upTo p s.length s

def many1 (p : Scan α) : Scan (List α) := do return (← p) :: (← many p)

def separatedBy (p : Scan α) (separator : Scan Unit) : Scan (List α) := do
  return (← p) :: (← many (separator *> p))

def times (p : Scan α) : Nat → Scan (List α)
  | 0 => pure []
  | n + 1 => do return (← p) :: (← times p n)

def isBlank (c : Char) : Bool := c == ' ' || c == '\t'

def blanks : Scan Unit := do discard (takeWhile isBlank)

def newline : Scan Unit := exactly ['\n'] <|> exactly ['\r', '\n']

/-- Characters that may stand in comments and, quotes and backslashes apart, in strings: the tab
and everything that is no control character of ASCII. -/
def isPlain (c : Char) : Bool := c == '\t' || (' ' ≤ c && c ≠ '\x7f')

def comment : Scan Unit := do
  discard (char '#')
  discard (takeWhile isPlain)

/-- What may follow the content of a line. -/
def lineEnd : Scan Unit := do
  blanks
  discard (optional comment)
  newline <|> atEnd

def spacing : Scan Unit := do
  discard (many ((do discard (satisfying isBlank)) <|> newline <|> (do comment; newline)))

end Scan

end PatternAnatomy.Toml
