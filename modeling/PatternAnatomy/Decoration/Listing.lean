import PatternAnatomy.Decoration
import PatternAnatomy.Text.Quoted

namespace PatternAnatomy

namespace Decoration

def listingLine (pattern : Text) (showOffsets : Bool) (d : Decoration) : Text :=
  (if showOffsets then d.span.render ++ [' '] else []) ++ d.kind.name ++
    ' ' :: Text.quoted (d.covered pattern) ++ ['\n']

/-- Two spaces for each level, one member to a line. -/
def jsonObject (d : Decoration) : Text :=
  "  \x7b\n    \"kind\": \"".toList ++ d.kind.name ++
    "\",\n    \"start\": ".toList ++ Text.ofNat d.start ++
    ",\n    \"length\": ".toList ++ Text.ofNat d.length ++ "\n  \x7d".toList

end Decoration

def listing (pattern : Text) (ds : List Decoration) (showOffsets : Bool) : Text :=
  ds.flatMap (·.listingLine pattern showOffsets)

def json (ds : List Decoration) : Text :=
  if ds.isEmpty then "[]".toList
  else "[\n".toList ++ Text.joined ",\n".toList (ds.map (·.jsonObject)) ++ "\n]".toList

end PatternAnatomy
