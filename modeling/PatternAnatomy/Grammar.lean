import PatternAnatomy.Node
import PatternAnatomy.Reading.Reader

namespace PatternAnatomy.Grammar

open Reader

/-- The characters that mean something outside a character list. -/
def significant : List Char := ['.', '$', '^', '{', '[', '(', '|', ')', '*', '+', '?', '\\']

def charOutside (set : List Char) : Reader Char := satisfying (· ∉ set)

def charExcept (c : Char) : Reader Char := satisfying (· ≠ c)

def runExcept (c : Char) : Reader Text := (charExcept c).many1

def digitsValue (ds : Text) : Nat := ds.foldl (fun n d => 10 * n + (d.toNat - '0'.toNat)) 0

def digits : Reader Text := (satisfying Char.isDigit).many1

/-- A repetition count in decimal, below 2^32. -/
def count : Reader Nat := fun s =>
  match digits s with
  | .accepted ds t passed =>
    if digitsValue ds < Nat.pow 2 32 then .accepted (digitsValue ds) t passed
    else .stuck ⟨t.offset, .between s.offset t.offset, .countTooLarge ds, [], none, .unnamed⟩
  | .stuck o => .stuck o

def verbatim : Reader Node :=
  within .verbatim <| spanned do
    let value ← (charOutside significant).many1
    return .verbatim value

def anyCharacter : Reader Node :=
  within .anyChar <| spanned do
    char '.'
    return .special .anyChar

/-- A backslash alone; the character it escapes is left to the rules that follow. -/
def escape : Reader Node :=
  within .escape <| spanned do
    char '\\'
    return .special .escape

def range : Reader Item :=
  within .range <| spanned do
    let first ← anyChar
    char '-'
    let last ← anyChar
    return .range first last

def singleChar : Reader Item :=
  spanned do
    let value ← charExcept ']'
    return .single value

def item : Reader Item := range <|> singleChar

def charList : Reader Node :=
  within .charList <| spanned do
    char '['
    let caret ← optional (char '^')
    let items ← item.many1
    char ']'
    return .charList items caret.isSome

def bounds : Reader Repetition := do
  char '{'
  let min ← optional count
  char ','
  let max ← optional count
  char '}'
  return ⟨min.getD 0, max, false⟩

def sign (text : Text) (r : Repetition) : Reader Repetition := do
  exactly text
  return r

/-- The lazy signs begin with the greedy ones and are tried before them. -/
def quantifier : Reader Node :=
  within .quantifier <| spanned do
    let repetition ←
      sign ['*', '?'] ⟨0, none, true⟩ <|> sign ['+', '?'] ⟨1, none, true⟩ <|>
      sign ['+'] ⟨1, none, false⟩ <|> sign ['*'] ⟨0, none, false⟩ <|>
      sign ['?'] ⟨0, some 1, false⟩ <|> bounds
    return .quantifier repetition

def groupName : Reader Text :=
  within .groupName do
    exactly ['?', '<']
    let name ← runExcept '>'
    char '>'
    return name

def group (pattern : Reader (List Node)) : Reader Node :=
  within .group <| spanned do
    char '('
    let marker ← optional (exactly ['?', ':'])
    let name ← optional groupName
    let children ← pattern
    char ')'
    return .group children marker.isSome name

/-- An atom by itself, or the branches of an alternation. -/
def branches (atoms : List Node) (s : Span) : Node :=
  match atoms with
  | [atom] => atom
  | _ => .alternation atoms s

def atom (pattern : Reader (List Node)) : Reader Node :=
  anyCharacter <|> escape <|> charList <|> verbatim <|> group pattern

def quantifiable (pattern : Reader (List Node)) : Reader Node :=
  spanned do
    let atoms ← (atom pattern).separatedBy (char '|')
    return branches atoms

def quantified (pattern : Reader (List Node)) : Reader (List Node) := do
  let atom ← quantifiable pattern
  let repetition ← optional quantifier
  return atom :: repetition.toList

def patternWithin : Nat → Reader (List Node)
  | 0 => accept []
  | depth + 1 => do
    let runs ← (quantified (patternWithin depth)).many
    return runs.flatten

/-- Patterns, to a depth of nesting that no text exceeds. Where several rules could read the same
text, the one listed first does:

    pattern      ::= (quantifiable quantifier?)*
    quantifiable ::= atom ('|' atom)*
    atom         ::= '.' | '\' | charList | verbatim | group
    charList     ::= '[' '^'? (range | character)+ ']'
    quantifier   ::= '*?' | '+?' | '+' | '*' | '?' | '{' count? ',' count? '}'
    group        ::= '(' '?:'? ('?<' name '>')? pattern ')' -/
def pattern : Reader (List Node) := fun s => patternWithin (s.rest.length + 1) s

/-- A pattern that takes up the whole text. -/
def whole : Reader (List Node) := pattern.complete

end PatternAnatomy.Grammar
