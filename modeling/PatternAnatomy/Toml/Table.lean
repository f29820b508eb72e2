import PatternAnatomy.Number.Binary64

namespace PatternAnatomy.Toml

inductive Value where
  | text (t : Text)
  | integer (n : Int)
  | real (x : Binary64)
  | boolean (b : Bool)
  /-- A date, a time or both, as written. -/
  | moment (t : Text)
  | array (vs : List Value)
  | table (entries : List (Text × Value))

/-- How a table came to be, which decides what may be added to it later: one that a header defined
is closed, one that a longer header implied can still be defined, and one that dotted keys made
takes further dotted keys. -/
inductive Origin where
  | defined | implied | dotted
deriving DecidableEq

inductive Entry where
  | value (v : Value)
  | table (origin : Origin) (entries : List (Text × Entry))
  /-- The elements of an array that headers write, of which the last one is open. -/
  | elements (tables : List (List (Text × Entry)))

abbrev Entries := List (Text × Entry)

namespace Entries

def get? (es : Entries) (key : Text) : Option Entry := es.lookup key

/-- Puts an entry in the place of the one with the same key, or behind all others. -/
def put (key : Text) (e : Entry) : Entries → Entries
  | [] => [(key, e)]
  | (k, d) :: es => if k = key then (key, e) :: es else (k, d) :: put key e es

def addValue (key : Text) (v : Value) : List Text → Entries → Option Entries
  | [], es => if (get? es key).isSome then none else some (put key (.value v) es)
  | k :: ks, es =>
    match get? es k with
    | none => (addValue key v ks []).map fun inner => put k (.table .dotted inner) es
    | some (.table origin inner) =>
      if origin = .defined ∨ (ks = [] ∧ origin ≠ .dotted) then none
      else (addValue key v ks inner).map fun inner => put k (.table origin inner) es
    | some (.elements ts) =>
      match ks, ts.getLast? with
      | _ :: _, some inner =>
        (addValue key v ks inner).map fun inner => put k (.elements (ts.dropLast ++ [inner])) es
      | _, _ => none
    | some (.value _) => none

/-- Changes the entries of the table at a path. Tables that are missing on the way are implied, and
of an array the last element is meant. -/
def within (change : Entries → Option Entries) : List Text → Entries → Option Entries
  | [], es => change es
  | k :: ks, es =>
    match get? es k with
    | none => (within change ks []).map fun inner => put k (.table .implied inner) es
    | some (.table origin inner) =>
      (within change ks inner).map fun inner => put k (.table origin inner) es
    | some (.elements ts) => do
      let inner ← within change ks (← ts.getLast?)
      return put k (.elements (ts.dropLast ++ [inner])) es
    | some (.value _) => none

def define (key : Text) (es : Entries) : Option Entries :=
  match get? es key with
  | none => some (es ++ [(key, .table .defined [])])
  | some (.table .implied inner) =>
    some (es.filter (·.1 ≠ key) ++ [(key, .table .defined inner)])
  | some _ => none

/-- Opens one more element of the array under a key. -/
def openElement (key : Text) (es : Entries) : Option Entries :=
  match get? es key with
  | none => some (put key (.elements [[]]) es)
  | some (.elements ts) => some (put key (.elements (ts ++ [[]])) es)
  | some _ => none

end Entries

mutual

def Entry.toValue : Entry → Value
  | .value v => v
  | .table _ es => .table (Entry.toValues es)
  | .elements ts => .array (Entry.toTables ts)

def Entry.toValues : List (Text × Entry) → List (Text × Value)
  | [] => []
  | (k, e) :: es => (k, e.toValue) :: toValues es

def Entry.toTables : List (List (Text × Entry)) → List Value
  | [] => []
  | es :: ts => .table (toValues es) :: toTables ts

end

end PatternAnatomy.Toml
