import PatternAnatomy.Span

namespace PatternAnatomy

namespace Decoration

inductive Kind where
  | openSquareBracket | characterListNegation | closeSquareBracket
  | rangeStart | rangeSymbol | rangeEnd
  | repetitionsCount
  | literalCharacter | literalString
  | groupStart | nonCapturingGroup | groupEnd
  | alternation
  | anyChar | escape
  | digit | notDigit | whitespace | notWhitespace
  | wordBoundary | notWordBoundary | wordCharacter | notWordCharacter
deriving DecidableEq

namespace Kind

def all : List Kind :=
  [openSquareBracket, characterListNegation, closeSquareBracket, rangeStart, rangeSymbol, rangeEnd,
   repetitionsCount, literalCharacter, literalString, groupStart, nonCapturingGroup, groupEnd,
   alternation, anyChar, escape, digit, notDigit, whitespace, notWhitespace, wordBoundary,
   notWordBoundary, wordCharacter, notWordCharacter]

theorem mem_all (k : Kind) : k ∈ all := by cases k <;> decide

def name : Kind → Text
  | openSquareBracket => "OpenSquareBracket".toList
  | characterListNegation => "CharacterListNegation".toList
  | closeSquareBracket => "CloseSquareBracket".toList
  | rangeStart => "RangeStart".toList
  | rangeSymbol => "RangeSymbol".toList
  | rangeEnd => "RangeEnd".toList
  | repetitionsCount => "RepetitionsCount".toList
  | literalCharacter => "LiteralCharacter".toList
  | literalString => "LiteralString".toList
  | groupStart => "GroupStart".toList
  | nonCapturingGroup => "NonCapturingGroup".toList
  | groupEnd => "GroupEnd".toList
  | alternation => "Alternation".toList
  | anyChar => "AnyChar".toList
  | escape => "Escape".toList
  | digit => "Digit".toList
  | notDigit => "NotDigit".toList
  | whitespace => "Whitespace".toList
  | notWhitespace => "NotWhitespace".toList
  | wordBoundary => "WordBoundary".toList
  | notWordBoundary => "NotWordBoundary".toList
  | wordCharacter => "WordCharacter".toList
  | notWordCharacter => "NotWordCharacter".toList

def ofName? (name : Text) : Option Kind := all.find? (·.name == name)

end Kind

end Decoration

/-- A kind and the characters it decorates. -/
structure Decoration where
  kind : Decoration.Kind
  start : Nat
  length : Nat
deriving DecidableEq

namespace Decoration

def single (kind : Kind) (start : Nat) : Decoration := ⟨kind, start, 1⟩

def spanning (kind : Kind) (s : Span) : Decoration := ⟨kind, s.offset, s.length⟩

def span (d : Decoration) : Span := ⟨d.start, d.length⟩

/-- One past the last character decorated. -/
def stop (d : Decoration) : Nat := d.start + d.length

def render (d : Decoration) : Text := d.kind.name ++ '@' :: d.span.render

/-- The decorated characters, as far as the pattern has them. -/
def covered (pattern : Text) (d : Decoration) : Text := (pattern.drop d.start).take d.length

end Decoration

end PatternAnatomy
