import PatternAnatomy.Decoration

namespace PatternAnatomy

inductive Category where
  | characterList | repetition | listCharacter | literalString
  | group | nonCapturingGroup | alternation
  | anyChar | escape | digit | notDigit | whitespace | wordBoundary | wordCharacter
deriving DecidableEq

namespace Category

def all : List Category :=
  [characterList, repetition, listCharacter, literalString, group, nonCapturingGroup, alternation,
   anyChar, escape, digit, notDigit, whitespace, wordBoundary, wordCharacter]

theorem mem_all (c : Category) : c ∈ all := by cases c <;> decide

def name : Category → Text
  | characterList => "CharacterList".toList
  | repetition => "Repetition".toList
  | listCharacter => "ListCharacter".toList
  | literalString => "LiteralString".toList
  | group => "Group".toList
  | nonCapturingGroup => "NonCapturingGroup".toList
  | alternation => "Alternation".toList
  | anyChar => "AnyChar".toList
  | escape => "Escape".toList
  | digit => "Digit".toList
  | notDigit => "NotDigit".toList
  | whitespace => "Whitespace".toList
  | wordBoundary => "WordBoundary".toList
  | wordCharacter => "WordCharacter".toList

/-- The key of the category in a table of settings: lower case, words joined by underscores. -/
def key : Category → Text
  | characterList => "character_list".toList
  | repetition => "repetition".toList
  | listCharacter => "list_character".toList
  | literalString => "literal_string".toList
  | group => "group".toList
  | nonCapturingGroup => "non_capturing_group".toList
  | alternation => "alternation".toList
  | anyChar => "any_char".toList
  | escape => "escape".toList
  | digit => "digit".toList
  | notDigit => "not_digit".toList
  | whitespace => "whitespace".toList
  | wordBoundary => "word_boundary".toList
  | wordCharacter => "word_character".toList

/-- The name of the category among other data: lower case, words joined by hyphens. -/
def slug (c : Category) : Text := c.key.map fun x => if x = '_' then '-' else x

def ofSlug? (t : Text) : Option Category := all.find? (·.slug == t)

def unknownMessage (t : Text) : Text :=
  "unknown variant `".toList ++ t ++ "`, expected one of ".toList ++
    Text.joined ", ".toList (all.map fun c => '`' :: c.slug ++ ['`'])

end Category

namespace Decoration.Kind

def category : Kind → Category
  | openSquareBracket | closeSquareBracket | characterListNegation => .characterList
  | repetitionsCount => .repetition
  | rangeStart | rangeSymbol | rangeEnd | literalCharacter => .listCharacter
  | literalString => .literalString
  | groupStart | groupEnd => .group
  | nonCapturingGroup => .nonCapturingGroup
  | alternation => .alternation
  | anyChar => .anyChar
  | escape => .escape
  | digit => .digit
  | notDigit => .notDigit
  | whitespace | notWhitespace => .whitespace
  | wordBoundary | notWordBoundary => .wordBoundary
  | wordCharacter | notWordCharacter => .wordCharacter

end Decoration.Kind

end PatternAnatomy
