import PatternAnatomy.Toml.Number

namespace PatternAnatomy.Toml

open Scan

/-- A number of exactly `size` digits between two bounds, as written. -/
def field (size least most : Nat) : Scan Text := do
  let ds ← times (digit 10) size
  let n := Text.numberOf 10 ds
  if least ≤ n ∧ n ≤ most then return ds else failure

def isLeapYear (year : Nat) : Bool := year % 4 == 0 && (year % 100 != 0 || year % 400 == 0)

def daysIn (year month : Nat) : Nat :=
  match month with
  | 2 => if isLeapYear year then 29 else 28
  | 4 | 6 | 9 | 11 => 30
  | _ => 31

def date : Scan Text := do
  let year ← field 4 0 9999
  discard (char '-')
  let month ← field 2 1 12
  discard (char '-')
  let day ← field 2 1 (daysIn (Text.numberOf 10 year) (Text.numberOf 10 month))
  return year ++ '-' :: month ++ '-' :: day

/-- The part of a second behind the point, with the point, or nothing when it is zero. -/
def fractionText (ds : Text) : Text :=
  let kept := ((ds.take 9).reverse.dropWhile (· = '0')).reverse
  if kept.isEmpty then [] else '.' :: kept

def time : Scan Text := do
  let hour ← field 2 0 23
  discard (char ':')
  let minute ← field 2 0 59
  discard (char ':')
  let second ← field 2 0 60
  let fraction ← optional (char '.' *> many1 (digit 10))
  return hour ++ ':' :: minute ++ ':' :: second ++ fractionText (fraction.getD [])

/-- The distance from universal time; none at all is ahead of it by nothing. -/
def zone : Scan Text :=
  (do discard (char 'Z' <|> char 'z'); return ['Z']) <|> do
    let s ← char '+' <|> char '-'
    let hour ← field 2 0 23
    discard (char ':')
    let minute ← field 2 0 59
    let s := if Text.numberOf 10 (hour ++ minute) = 0 then '+' else s
    return s :: hour ++ ':' :: minute

def dateTime : Scan Text := do
  let d ← date
  let t ← optional do
    discard (satisfying fun c => c == 'T' || c == 't' || c == ' ')
    let t ← time
    let z ← optional zone
    return 'T' :: t ++ z.getD []
  return d ++ t.getD []

def moment : Scan Text := dateTime <|> time

end PatternAnatomy.Toml
