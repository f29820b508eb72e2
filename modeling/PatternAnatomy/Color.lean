import PatternAnatomy.Text.Blank
import PatternAnatomy.Text.Digit
import PatternAnatomy.Text.Lowercase

namespace PatternAnatomy

inductive Color where
  | black | darkGrey | red | darkRed | green | darkGreen | yellow | darkYellow
  | blue | darkBlue | magenta | darkMagenta | cyan | darkCyan | white | grey
  /-- Whatever the terminal uses when nothing is said. -/
  | reset
  | rgb (red green blue : Nat)
deriving DecidableEq

namespace Color

def named : List (Text × Color) :=
  [("black".toList, black), ("dark_grey".toList, darkGrey), ("red".toList, red),
   ("dark_red".toList, darkRed), ("green".toList, green), ("dark_green".toList, darkGreen),
   ("yellow".toList, yellow), ("dark_yellow".toList, darkYellow), ("blue".toList, blue),
   ("dark_blue".toList, darkBlue), ("magenta".toList, magenta),
   ("dark_magenta".toList, darkMagenta), ("cyan".toList, cyan), ("dark_cyan".toList, darkCyan),
   ("white".toList, white), ("grey".toList, grey), ("reset".toList, reset)]

/-- Names are read in any case. -/
def ofName? (name : Text) : Option Color := named.lookup (Text.lowercase name)

/-- One part of a mixture, in two characters: two hexadecimal digits, or a plus sign and one. -/
def channel? (a b : Char) : Option Nat := do
  let low ← Text.digitValue? b
  if a = '+' then return low
  let high ← Text.digitValue? a
  return 16 * high + low

def ofMixture? : Text → Option Color
  | [r, r', g, g', b, b'] => do return rgb (← channel? r r') (← channel? g g') (← channel? b b')
  | _ => none

def render : Color → Text
  | black => "Black".toList
  | darkGrey => "DarkGrey".toList
  | red => "Red".toList
  | darkRed => "DarkRed".toList
  | green => "Green".toList
  | darkGreen => "DarkGreen".toList
  | yellow => "Yellow".toList
  | darkYellow => "DarkYellow".toList
  | blue => "Blue".toList
  | darkBlue => "DarkBlue".toList
  | magenta => "Magenta".toList
  | darkMagenta => "DarkMagenta".toList
  | cyan => "Cyan".toList
  | darkCyan => "DarkCyan".toList
  | white => "White".toList
  | grey => "Grey".toList
  | reset => "Reset".toList
  | rgb r g b =>
    "Rgb \x7b r: ".toList ++ Text.ofNat r ++ ", g: ".toList ++ Text.ofNat g ++ ", b: ".toList ++
      Text.ofNat b ++ " \x7d".toList

/-- The parameters that make a terminal write on this color. -/
def backgroundCode : Color → Text
  | black => "48;5;0".toList
  | darkRed => "48;5;1".toList
  | darkGreen => "48;5;2".toList
  | darkYellow => "48;5;3".toList
  | darkBlue => "48;5;4".toList
  | darkMagenta => "48;5;5".toList
  | darkCyan => "48;5;6".toList
  | grey => "48;5;7".toList
  | darkGrey => "48;5;8".toList
  | red => "48;5;9".toList
  | green => "48;5;10".toList
  | yellow => "48;5;11".toList
  | blue => "48;5;12".toList
  | magenta => "48;5;13".toList
  | cyan => "48;5;14".toList
  | white => "48;5;15".toList
  | reset => "49".toList
  | rgb r g b =>
    "48;2;".toList ++ Text.ofNat r ++ ';' :: Text.ofNat g ++ ';' :: Text.ofNat b

end Color

inductive Fill where
  | plain
  | color (c : Color)
deriving DecidableEq

namespace Fill

def color? : Fill → Option Color
  | plain => none
  | color c => some c

def saysNone (t : Text) : Bool := t.map Char.toLower == "none".toList

/-- Reads `none`, a mixture behind a number sign, or the name of a color, in white space or not. -/
def parse? (text : Text) : Option Fill :=
  let t := text.trimmed
  if saysNone t then some plain
  else match t with
    | '#' :: mixture => (Color.ofMixture? mixture).map color
    | _ => (Color.ofName? t).map color

end Fill

end PatternAnatomy
