import PatternAnatomy.Text

namespace PatternAnatomy

inductive Binary64 where
  /-- The number `mantissa * 2 ^ exponent`, below zero when `negative`. -/
  | finite (negative : Bool) (mantissa : Nat) (exponent : Int)
  | infinite (negative : Bool)
  | undefined
deriving DecidableEq

namespace Binary64

structure Ratio where
  num : Nat
  den : Nat

namespace Ratio

def scaled (r : Ratio) (base : Nat) (exponent : Int) : Ratio :=
  if 0 ≤ exponent then ⟨r.num * Nat.pow base exponent.toNat, r.den⟩
  else ⟨r.num, r.den * Nat.pow base (-exponent).toNat⟩

def floor (r : Ratio) : Nat := r.num / r.den

/-- The nearest natural number, of two the even one. -/
def nearest (r : Ratio) : Nat :=
  let n := r.floor
  let twice := 2 * (r.num % r.den)
  if twice < r.den ∨ (twice = r.den ∧ n % 2 = 0) then n else n + 1

def lt (r s : Ratio) : Bool := r.num * s.den < s.num * r.den

def le (r s : Ratio) : Bool := r.num * s.den ≤ s.num * r.den

end Ratio

def minExponent : Int := -1074

def maxExponent : Int := 971

/-- The number nearest to a fraction above zero. -/
def ofRatio (negative : Bool) (r : Ratio) : Binary64 :=
  let guess : Int := (r.num.log2 : Int) - r.den.log2 - 53
  let least := if Nat.pow 2 53 ≤ (r.scaled 2 (-guess)).floor then guess + 1 else guess
  let exponent := max least minExponent
  let mantissa := (r.scaled 2 (-exponent)).nearest
  let (mantissa, exponent) :=
    if mantissa = Nat.pow 2 53 then (Nat.pow 2 52, exponent + 1) else (mantissa, exponent)
  if maxExponent < exponent then infinite negative else finite negative mantissa exponent

/-- The number nearest to `n * 10 ^ e`. Decimals far outside the range are not worked out. -/
def ofDecimal (negative : Bool) (n : Nat) (e : Int) : Binary64 :=
  let size := (Nat.toDigits 10 n).length + e
  if n = 0 ∨ size < -330 then finite negative 0 minExponent
  else if 310 < size then infinite negative
  else ofRatio negative (Ratio.scaled ⟨n, 1⟩ 10 e)

def isZero : Binary64 → Bool
  | finite _ m _ => m == 0
  | _ => false

/-- Half the way to the number below, which is half as long from a power of two. -/
def lowerEnd (m : Nat) (q : Int) : Ratio :=
  if m = Nat.pow 2 52 ∧ minExponent < q then Ratio.scaled ⟨4 * m - 1, 4⟩ 2 q
  else Ratio.scaled ⟨2 * m - 1, 2⟩ 2 q

def upperEnd (m : Nat) (q : Int) : Ratio := Ratio.scaled ⟨2 * m + 1, 2⟩ 2 q

/-- Whether a fraction reads as `m * 2 ^ q`. The ends go to an even mantissa. -/
def readsAs (m : Nat) (q : Int) (r : Ratio) : Bool :=
  if m % 2 = 0 then (lowerEnd m q).le r && r.le (upperEnd m q)
  else (lowerEnd m q).lt r && r.lt (upperEnd m q)

/-- The number of digits before the point; not above zero when the first digit stands behind it. -/
def magnitude (r : Ratio) : Int :=
  if r.den ≤ r.num then (Nat.toDigits 10 r.floor).length
  else
    match (List.range 400).find? fun j => r.den ≤ r.num * Nat.pow 10 j with
    | some j => 1 - (j : Int)
    | none => -400

/-- The decimal of the given number of digits that reads as `m * 2 ^ q`, as digits and exponent. Of
two the nearer one is taken, and the upper one when they are equally near. -/
def ofDigits? (m : Nat) (q : Int) (count : Nat) : Option (Nat × Int) :=
  let exact := Ratio.scaled ⟨m, 1⟩ 2 q
  let e := magnitude exact - count
  let steps := exact.scaled 10 (-e)
  let low := steps.floor
  let reads (n : Nat) : Bool := readsAs m q (Ratio.scaled ⟨n, 1⟩ 10 e)
  let upperIsNear := steps.den ≤ 2 * (steps.num % steps.den)
  if reads low && reads (low + 1) then some (if upperIsNear then low + 1 else low, e)
  else if reads low then some (low, e)
  else if reads (low + 1) then some (low + 1, e)
  else none

/-- The fewest digits that read as `m * 2 ^ q`; seventeen are always enough. -/
def shortest (m : Nat) (q : Int) : Nat × Int :=
  ((List.range 17).findSome? fun i => ofDigits? m q (i + 1)).getD (m, q)

/-- Digits without an exponent, and without zeros at the end of the part behind the point. -/
def positional (n : Nat) (e : Int) : Text :=
  if 0 ≤ e then Nat.toDigits 10 (n * Nat.pow 10 e.toNat)
  else
    let places := (-e).toNat
    let whole := Nat.toDigits 10 (n / Nat.pow 10 places)
    let digits := Nat.toDigits 10 (n % Nat.pow 10 places)
    let part := List.replicate (places - digits.length) '0' ++ digits
    let part := (part.reverse.dropWhile (· = '0')).reverse
    if part.isEmpty then whole else whole ++ '.' :: part

def render : Binary64 → Text
  | finite negative m q =>
    let (n, e) := if m = 0 then (0, 0) else shortest m q
    if negative then '-' :: positional n e else positional n e
  | infinite negative => (if negative then "-inf" else "inf").toList
  | undefined => "NaN".toList

/-- The number with a point in it, where it has one at all. -/
def renderPointed (x : Binary64) : Text :=
  match x with
  | finite .. => if '.' ∈ x.render then x.render else x.render ++ ".0".toList
  | _ => x.render

end Binary64

end PatternAnatomy
