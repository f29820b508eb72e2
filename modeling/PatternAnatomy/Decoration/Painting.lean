import PatternAnatomy.Palette

namespace PatternAnatomy

namespace Painting

/-- A text on a background, which is taken back behind it. -/
def onBackground (c : Color) (t : Text) : Text :=
  '\x1b' :: '[' :: c.backgroundCode ++ 'm' :: t ++ "\x1b[49m".toList

def touch (palette : Palette) (colored : Bool) (kind : Decoration.Kind) (t : Text) : Text :=
  match palette.colorOf kind with
  | some c => if colored then onBackground c t else t
  | none => t

/-- Paints what is left of a pattern behind `cursor` characters. A decoration that starts among
those is passed over. -/
def paintFrom (palette : Palette) (colored : Bool) (cursor : Nat) (rest : Text) :
    List Decoration → Text
  | [] => rest
  | d :: ds =>
    if d.start < cursor then paintFrom palette colored cursor rest ds
    else
      let gap := rest.take (d.start - cursor)
      let behind := rest.drop (d.start - cursor)
      let touched := behind.take d.length
      gap ++ (touch palette colored d.kind touched ++
        paintFrom palette colored (cursor + gap.length + touched.length) (behind.drop d.length) ds)

end Painting

/-- The pattern with each decoration in the color of its kind; of decorations that overlap the first
is painted. -/
def paint (pattern : Text) (ds : List Decoration) (palette : Palette) (colored : Bool) : Text :=
  Painting.paintFrom palette colored 0 pattern ds

end PatternAnatomy
