import PatternAnatomy.Toml.Marked
import PatternAnatomy.Toml.Quoting

namespace PatternAnatomy.Toml

open Scan

def isBareKeyChar (c : Char) : Bool := c.isAlphanum || c == '_' || c == '-'

def keyPart : Scan Text := do
  blanks
  let k ← basicString <|> literalString <|> many1 (satisfying isBareKeyChar)
  blanks
  return k

/-- No key has more parts, and no value is nested deeper. -/
def depthLimit : Nat := 79

/-- A key as the path to its table and the last part. -/
def key : Scan (List Text × Text) := do
  let parts ← separatedBy keyPart (discard (char '.'))
  match parts.getLast? with
  | some last => if parts.length ≤ depthLimit then return (parts.dropLast, last) else failure
  | none => failure

def boolean : Scan Bool :=
  exactly "true".toList *> pure true <|> exactly "false".toList *> pure false

def scalar : Scan Value :=
  .text <$> string <|> .moment <$> moment <|> .real <$> real <|> .integer <$> integer <|>
    .boolean <$> boolean

/-- Values between brackets; a comma may follow the last one. -/
def array (value : Scan Value) : Scan Value := do
  discard (char '[')
  spacing
  let member : Scan Value := do
    let v ← value
    spacing
    return v
  let comma : Scan Unit := char ',' *> spacing
  let vs ← optional (separatedBy member comma)
  if vs.isSome then discard (optional comma)
  discard (char ']')
  return .array (vs.getD [])

def keyValue (value : Scan Value) : Scan ((List Text × Text) × Value) := do
  let k ← key
  discard (char '=')
  blanks
  let v ← value
  return (k, v)

def inlineTable (value : Scan Value) : Scan Value := do
  discard (char '\x7b')
  blanks
  let pair : Scan ((List Text × Text) × Value) := do
    let kv ← keyValue value
    blanks
    return kv
  let pairs ← optional (separatedBy pair (discard (char ',')))
  discard (char '\x7d')
  let es := (pairs.getD []).foldlM (fun es ((path, k), v) => Entries.addValue k v path es) []
  match es with
  | some es => return .table (Entry.toValues es)
  | none => failure

def valueWithin : Nat → Scan Value
  | 0 => scalar
  | depth + 1 => array (valueWithin depth) <|> inlineTable (valueWithin depth) <|> scalar

def value : Scan Value := valueWithin depthLimit

/-- What has been read of a document: the whole of it, and the path of the table that keys go to. -/
structure Draft where
  root : Entries
  current : List Text

namespace Draft

def openTable (d : Draft) (path : List Text) (k : Text) : Option Draft := do
  return ⟨← d.root.within (Entries.define k) path, path ++ [k]⟩

def openElement (d : Draft) (path : List Text) (k : Text) : Option Draft := do
  return ⟨← d.root.within (Entries.openElement k) path, path ++ [k]⟩

def addValue (d : Draft) (path : List Text) (k : Text) (v : Value) : Option Draft := do
  return ⟨← d.root.within (Entries.addValue k v path) d.current, d.current⟩

end Draft

def elementHeader (d : Draft) : Scan Draft := do
  exactly ['[', '[']
  let (path, k) ← key
  exactly [']', ']']
  lineEnd
  d.openElement path k

def tableHeader (d : Draft) : Scan Draft := do
  notAhead (exactly ['[', '['])
  discard (char '[')
  let (path, k) ← key
  discard (char ']')
  lineEnd
  d.openTable path k

def assignment (d : Draft) : Scan Draft := do
  let ((path, k), v) ← keyValue value
  lineEnd
  d.addValue path k v

def emptyLine (d : Draft) : Scan Draft := do
  newline <|> (do comment; newline <|> atEnd)
  return d

def statement (d : Draft) : Scan Draft := do
  let d ← elementHeader d <|> tableHeader d <|> emptyLine d <|> assignment d
  blanks
  return d

def statements : Nat → Draft → Scan Draft
  | 0, d => do atEnd; return d
  | n + 1, d => (do atEnd; return d) <|> (do statements n (← statement d))

/-- The text of a document as it is written, which may begin with a byte order mark. -/
def written? (t : Text) : Option Entries :=
  let t := if t.head? = some '\ufeff' then t.drop 1 else t
  let draft := (do blanks; statements t.length ⟨[], []⟩ : Scan Draft).run t
  draft.map fun (d, _) => d.root

/-- The entries of a document. As a whole it has to be a table. -/
def parse? (t : Text) : Option (List (Text × Value)) := do
  match ← Value.settled? (.table (Entry.toValues (← written? t))) with
  | .table es => return es
  | _ => none

end PatternAnatomy.Toml
