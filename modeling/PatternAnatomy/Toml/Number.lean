import PatternAnatomy.Number.Binary64
import PatternAnatomy.Toml.Scan

namespace PatternAnatomy.Toml

open Scan

def digit (base : Nat) : Scan Char := satisfying (Text.isDigitOf base)

/-- Digits, single underscores between them left out. -/
def digits (base : Nat) : Scan Text := do
  let d ← digit base
  let ds ← many (optional (char '_') *> digit base)
  return d :: ds

def sign : Scan Bool := char '-' *> pure true <|> char '+' *> pure false <|> pure false

/-- A zero alone, or digits that do not begin with one. -/
def wholeDigits : Scan Text :=
  (do notAhead (char '0'); digits 10) <|> (do return [← char '0'])

def inRange (n : Int) : Scan Int := if -Int.pow 2 63 ≤ n ∧ n < Int.pow 2 63 then pure n else failure

def basedInteger (mark : Text) (base : Nat) : Scan Int := do
  exactly mark
  inRange (Text.numberOf base (← digits base))

def decimalInteger : Scan Int := do
  let negative ← sign
  let n := (Text.numberOf 10 (← wholeDigits) : Int)
  inRange (if negative then -n else n)

def integer : Scan Int :=
  basedInteger ['0', 'x'] 16 <|> basedInteger ['0', 'o'] 8 <|> basedInteger ['0', 'b'] 2 <|>
    decimalInteger

def exponent : Scan Int := do
  discard (satisfying fun c => c == 'e' || c == 'E')
  let negative ← sign
  let n := (Text.numberOf 10 (← digits 10) : Int)
  return if negative then -n else n

/-- A number with a fraction, an exponent or both. One too large for any but the infinite value is
refused above zero. -/
def decimalReal : Scan Binary64 := do
  let negative ← sign
  let whole ← wholeDigits
  let fraction ← optional (char '.' *> digits 10)
  let power ← optional exponent
  if fraction.isNone && power.isNone then failure
  let behind := fraction.getD []
  let x := Binary64.ofDecimal negative (Text.numberOf 10 (whole ++ behind))
    (power.getD 0 - behind.length)
  if x = .infinite false then failure
  return x

def specialReal : Scan Binary64 := do
  let negative ← sign
  exactly "inf".toList *> pure (.infinite negative) <|> exactly "nan".toList *> pure .undefined

def real : Scan Binary64 := decimalReal <|> specialReal

end PatternAnatomy.Toml
