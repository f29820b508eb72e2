import PatternAnatomy.Node.Label

namespace PatternAnatomy

namespace Outline

def line (indent : Text) (isLast : Bool) (typeName label : Text) (span : Span) : Text :=
  indent ++ (if isLast then "└─ ".toList else "├─ ".toList) ++ typeName ++ ": ".toList ++
    Text.shortened 30 label ++ " @".toList ++ span.render ++ ['\n']

/-- Two columns stand for each level above: a bar where that ancestor has a later sibling. -/
def deeper (indent : Text) (isLast : Bool) : Text :=
  indent ++ if isLast then [' ', ' '] else ['│', ' ']

end Outline

open Outline

def Item.outlineAll (indent : Text) : List Item → List Text
  | [] => []
  | i :: is => line indent is.isEmpty i.typeName i.label i.span :: outlineAll indent is

mutual

def Node.outlineInside (indent : Text) : Node → List Text
  | .charList items _ _ => Item.outlineAll indent items
  | .group children _ _ _ => Node.outlineAll indent children
  | .alternation branches _ => Node.outlineAll indent branches
  | .verbatim .. | .special .. | .quantifier .. => []

def Node.outlineAll (indent : Text) : List Node → List Text
  | [] => []
  | n :: ns =>
    line indent ns.isEmpty n.typeName n.label n.span ::
      (n.outlineInside (deeper indent ns.isEmpty) ++ outlineAll indent ns)

end

def outlineLines (nodes : List Node) : List Text := Node.outlineAll [] nodes

def outline (nodes : List Node) : Text := (outlineLines nodes).flatten

end PatternAnatomy
