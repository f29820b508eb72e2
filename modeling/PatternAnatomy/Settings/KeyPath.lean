import PatternAnatomy.Text.Digit
import PatternAnatomy.Text.Lowercase

namespace PatternAnatomy

namespace KeyPath

inductive Step where
  | member (name : Text)
  /-- An index below zero counts from the end. -/
  | index (i : Int)
deriving DecidableEq

inductive Fault where
  /-- It does not begin with a name. -/
  | noName
  /-- A bracket opens without an index. -/
  | noIndex
  | indexTooLarge
  /-- Something else stands where a point, a bracket or a name is needed. -/
  | misplaced
deriving DecidableEq

namespace Fault

def message : Fault → Text
  | noName => "IsA".toList
  | noIndex => "Digit".toList
  | indexTooLarge => "Map on Result".toList
  | misplaced => "Char".toList

end Fault

end KeyPath

structure KeyPath where
  first : Text
  steps : List KeyPath.Step
deriving DecidableEq

namespace KeyPath

def isNameChar (c : Char) : Bool := c.isAlphanum || c == ' ' || c == '_' || c == '-'

def isBlank (c : Char) : Bool := c == ' ' || c == '\t'

/-- An index with its closing bracket, and what follows. -/
def index? (t : Text) : Except Fault (Int × Text) :=
  let t := t.dropWhile isBlank
  let negative := t.head? = some '-'
  let t := if negative then t.drop 1 else t
  let n : Int := Text.numberOf 10 (t.takeWhile Char.isDigit)
  let i := if negative then -n else n
  if !(t.head?.any Char.isDigit) then .error .noIndex
  else if i < -Int.pow 2 63 ∨ Int.pow 2 63 ≤ i then .error .indexTooLarge
  else match (t.dropWhile Char.isDigit).dropWhile isBlank with
    | ']' :: rest => .ok (i, rest)
    | _ => .error .misplaced

/-- The steps of a path; there are not more of them than characters. -/
def steps? : Nat → Text → Except Fault (List Step)
  | _, [] => .ok []
  | 0, _ :: _ => .error .misplaced
  | n + 1, c :: cs =>
    if c = '.' then
      let name := cs.takeWhile isNameChar
      if name.isEmpty then .error .misplaced
      else do return .member (Text.lowercase name) :: (← steps? n (cs.dropWhile isNameChar))
    else if c = '[' then do
      let (i, rest) ← index? cs
      return .index i :: (← steps? n rest)
    else .error .misplaced

def parse (t : Text) : Except Fault KeyPath :=
  let name := t.takeWhile isNameChar
  if name.isEmpty then .error .noName
  else do return ⟨Text.lowercase name, ← steps? t.length (t.dropWhile isNameChar)⟩

end KeyPath

end PatternAnatomy
