import PatternAnatomy.Toml.Moment
import PatternAnatomy.Toml.Table

namespace PatternAnatomy.Toml

open Scan

def momentKey : Text := "$__toml_private_datetime".toList

/-- The moment that the text of a marked table spells from its beginning to its end. -/
def momentOf? : Value → Option Value
  | .text t => ((moment <* atEnd).run t).map fun (m, _) => .moment m
  | _ => none

mutual

/-- The value with moments in the place of the tables that stand for them. -/
def Value.settled? : Value → Option Value
  | .table ((k, v) :: es) =>
    if k = momentKey then momentOf? v
    else do return .table ((k, ← v.settled?) :: (← Value.settledEntries? es))
  | .array vs => do return .array (← Value.settledAll? vs)
  | v => some v

def Value.settledEntries? : List (Text × Value) → Option (List (Text × Value))
  | [] => some []
  | (k, v) :: es => do return (k, ← v.settled?) :: (← settledEntries? es)

def Value.settledAll? : List Value → Option (List Value)
  | [] => some []
  | v :: vs => do return (← v.settled?) :: (← settledAll? vs)

end

end PatternAnatomy.Toml
