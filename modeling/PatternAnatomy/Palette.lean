import PatternAnatomy.Category
import PatternAnatomy.Color
import PatternAnatomy.Text.Quoted

namespace PatternAnatomy

def Palette := Category → Option Color

structure ColorError where
  category : Category
  value : Text
deriving DecidableEq

namespace ColorError

def message (e : ColorError) : Text :=
  "invalid color ".toList ++ Text.quoted e.value ++ " for ".toList ++ e.category.name

end ColorError

namespace Palette

def empty : Palette := fun _ => none

/-- The palette in which a category has what it is to be painted with: a color in the place of the
one it had. What is plain changes nothing. -/
def add (p : Palette) (c : Category) : Fill → Palette
  | .plain => p
  | .color color => fun d => if d = c then some color else p d

/-- Adds what one text after another asks for; the first that is no color is the one that is
told. -/
def addAll (p : Palette) : List (Category × Text) → Except ColorError Palette
  | [] => .ok p
  | (c, t) :: entries =>
    match Fill.parse? t with
    | some fill => (p.add c fill).addAll entries
    | none => .error ⟨c, t⟩

def ofTexts (texts : Category → Text) : Except ColorError Palette :=
  empty.addAll (Category.all.map fun c => (c, texts c))

def colorOf (p : Palette) (kind : Decoration.Kind) : Option Color := p kind.category

end Palette

end PatternAnatomy
