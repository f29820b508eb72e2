import PatternAnatomy.Decoration
import PatternAnatomy.Node

namespace PatternAnatomy

open Decoration

/-- Where a bracketed node closes: at its last character. -/
def Span.closing (s : Span) : Nat := s.last?.getD s.offset

def Special.decoration : Special → Kind
  | anyChar => .anyChar
  | escape => .escape
  | digit => .digit
  | notDigit => .notDigit
  | whitespace => .whitespace
  | notWhitespace => .notWhitespace
  | wordBoundary => .wordBoundary
  | notWordBoundary => .notWordBoundary
  | wordCharacter => .wordCharacter
  | notWordCharacter => .notWordCharacter

def Item.decorations : Item → List Decoration
  | single _ s => [spanning .literalCharacter s]
  | range _ _ s =>
    [.single .rangeStart s.offset, .single .rangeSymbol (s.offset + 1),
     .single .rangeEnd (s.offset + 2)]

mutual

def Node.decorations : Node → List Decoration
  | .verbatim _ s => [spanning .literalString s]
  | .special kind s => [spanning kind.decoration s]
  | .quantifier _ s => [spanning .repetitionsCount s]
  | .charList items negated s =>
    Decoration.single .openSquareBracket s.offset ::
      (if negated then [.single .characterListNegation (s.offset + 1)] else []) ++
      items.flatMap Item.decorations ++ [.single .closeSquareBracket s.closing]
  | .group children nonCapturing _ s =>
    Decoration.single .groupStart s.offset ::
      (if nonCapturing then [⟨.nonCapturingGroup, s.offset + 1, 2⟩] else []) ++
      Node.decorationsAll children ++ [.single .groupEnd s.closing]
  | .alternation branches _ => Node.decorationsBarred branches

def Node.decorationsAll : List Node → List Decoration
  | [] => []
  | n :: ns => n.decorations ++ decorationsAll ns

/-- Branches with a bar right behind each one but the last. -/
def Node.decorationsBarred : List Node → List Decoration
  | [] => []
  | n :: ns =>
    n.decorations ++ (if ns.isEmpty then [] else [.single .alternation n.span.stop]) ++
      decorationsBarred ns

end

def decorations (nodes : List Node) : List Decoration := Node.decorationsAll nodes

end PatternAnatomy
