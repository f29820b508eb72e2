import PatternAnatomy.Node
import PatternAnatomy.Text.Quoted

namespace PatternAnatomy

namespace Special

def label : Special → Text
  | anyChar => "any character".toList
  | escape => "escape".toList
  | digit => "digit".toList
  | notDigit => "not digit".toList
  | whitespace => "whitespace".toList
  | notWhitespace => "not whitespace".toList
  | wordBoundary => "word boundary".toList
  | notWordBoundary => "not word boundary".toList
  | wordCharacter => "word character".toList
  | notWordCharacter => "not word character".toList

end Special

namespace Item

def typeName : Item → Text
  | single .. => "SingleChar".toList
  | range .. => "CharRange".toList

def label : Item → Text
  | single c _ => Text.quotedChar c
  | range a b _ => Text.quotedChar a ++ '-' :: Text.quotedChar b

/-- The item as it stands in a pattern. -/
def render : Item → Text
  | single c _ => [c]
  | range a b _ => [a, '-', b]

end Item

namespace Repetition

def label (r : Repetition) : Text :=
  let max := match r.max with
    | some n => Text.ofNat n
    | none => "inf".toList
  Text.ofNat r.min ++ "..".toList ++ max ++ if r.lazy then " lazy".toList else []

end Repetition

namespace Node

def typeName : Node → Text
  | verbatim .. => "VerbatimString".toList
  | special .. => "AtomicSpecial".toList
  | charList .. => "CharList".toList
  | quantifier .. => "Quantifier".toList
  | group .. => "Group".toList
  | alternation .. => "Alternations".toList

def label : Node → Text
  | verbatim value _ => Text.quoted value
  | special kind _ => kind.label
  | charList items negated _ =>
    let list := '[' :: Text.joined [' '] (items.map Item.render) ++ [']']
    if negated then "not ".toList ++ list else list
  | quantifier repetition _ => repetition.label
  | group _ _ (some name) _ => "named ".toList ++ Text.quoted name
  | group _ true none _ => "non-capturing".toList
  | group _ false none _ => "capturing".toList
  | alternation branches _ => Text.ofNat branches.length ++ " alternatives".toList

def render (n : Node) : Text := n.typeName ++ '(' :: n.label ++ [')']

def summary (nodes : List Node) : Text := Text.joined ", ".toList (nodes.map render)

end Node

end PatternAnatomy
