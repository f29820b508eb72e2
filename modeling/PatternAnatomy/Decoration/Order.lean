import PatternAnatomy.Decoration

namespace PatternAnatomy

inductive Disorder where
  /-- The first starts after the second. -/
  | reversed (first second : Decoration)
  /-- The first starts in time but ends inside the second or behind its start. -/
  | overlapping (first second : Decoration)
deriving DecidableEq

namespace Disorder

def message : Disorder → Text
  | reversed a b =>
    "Primitive tokens out of order: ".toList ++ a.render ++ " before ".toList ++ b.render
  | overlapping a b =>
    "Primitive tokens overlap: ".toList ++ a.render ++ " and ".toList ++ b.render

end Disorder

namespace Decoration

/-- The first pair of neighbours out of order. -/
def disorder? : List Decoration → Option Disorder
  | a :: b :: ds =>
    if b.start < a.start then some (.reversed a b)
    else if b.start < a.stop then some (.overlapping a b)
    else disorder? (b :: ds)
  | _ => none

end Decoration

end PatternAnatomy
