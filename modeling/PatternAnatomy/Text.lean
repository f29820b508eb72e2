namespace PatternAnatomy

/-- Every place and length in the library counts the characters of such a list. -/
abbrev Text := List Char

namespace Text

def ofNat (n : Nat) : Text := Nat.toDigits 10 n

/-- The number of bytes that a text takes in UTF-8. -/
def byteLength (t : Text) : Nat := t.foldr (fun c n => c.utf8Size + n) 0

theorem byteLength_cons (c : Char) (t : Text) :
    byteLength (c :: t) = c.utf8Size + byteLength t := rfl

/-- Writes the pieces one after another with `separator` between neighbours. -/
def joined (separator : Text) : List Text → Text
  | [] => []
  | [t] => t
  | t :: ts => t ++ separator ++ joined separator ts

/-- Puts `t` at its place in an increasing list, unless it stands there already. -/
def insertOrdered (t : Text) : List Text → List Text
  | [] => [t]
  | u :: us => if t < u then t :: u :: us else if t = u then u :: us else u :: insertOrdered t us

/-- The texts of a list in increasing order of their code points, each once. -/
def ordered (ts : List Text) : List Text := ts.foldr insertOrdered []

/-- Cuts a text that is longer than `limit` and marks the cut with three dots. -/
def shortened (limit : Nat) (t : Text) : Text :=
  if limit < t.length then t.take limit ++ "...".toList else t

end Text

end PatternAnatomy
