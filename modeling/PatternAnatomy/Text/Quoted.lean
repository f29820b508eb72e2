import PatternAnatomy.Text
import PatternAnatomy.Text.Hidden

namespace PatternAnatomy.Text

/-- A character as it is written between two `quote` characters. -/
def escaped (quote c : Char) : Text :=
  if c = quote ∨ c = '\\' then ['\\', c]
  else if c = '\x00' then ['\\', '0']
  else if c = '\t' then ['\\', 't']
  else if c = '\r' then ['\\', 'r']
  else if c = '\n' then ['\\', 'n']
  else if isHidden c then ['\\', 'u', '{'] ++ Nat.toDigits 16 c.toNat ++ ['}']
  else [c]

def quoted (t : Text) : Text := '"' :: t.flatMap (escaped '"') ++ ['"']

/-- A character between single quotes. -/
def quotedChar (c : Char) : Text := '\'' :: escaped '\'' c ++ ['\'']

end PatternAnatomy.Text
