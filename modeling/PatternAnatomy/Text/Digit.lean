import PatternAnatomy.Text

namespace PatternAnatomy.Text

/-- The value of a digit in bases up to sixteen, letters in either case. -/
def digitValue? (c : Char) : Option Nat :=
  let n := c.toNat
  if '0'.toNat ≤ n ∧ n ≤ '9'.toNat then some (n - '0'.toNat)
  else if 'a'.toNat ≤ n ∧ n ≤ 'f'.toNat then some (n - 'a'.toNat + 10)
  else if 'A'.toNat ≤ n ∧ n ≤ 'F'.toNat then some (n - 'A'.toNat + 10)
  else none

def isDigitOf (base : Nat) (c : Char) : Bool :=
  match digitValue? c with
  | some v => v < base
  | none => false

/-- The number that the digits of a text write; what is no digit counts as zero. -/
def numberOf (base : Nat) (t : Text) : Nat :=
  t.foldl (fun n c => base * n + (digitValue? c).getD 0) 0

end PatternAnatomy.Text
