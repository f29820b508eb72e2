import PatternAnatomy.Category
import PatternAnatomy.Files
import PatternAnatomy.Settings.Tree
import PatternAnatomy.Text.Quoted
import PatternAnatomy.Toml.Document

namespace PatternAnatomy

inductive OutputFormat where
  | ansi | tokens | json | tree
deriving DecidableEq

namespace OutputFormat

def all : List OutputFormat := [ansi, tokens, json, tree]

def name : OutputFormat → Text
  | ansi => "ansi".toList
  | tokens => "tokens".toList
  | json => "json".toList
  | tree => "tree".toList

def ofName? (t : Text) : Option OutputFormat := all.find? (·.name == t)

end OutputFormat

structure Settings where
  colors : Category → Text
  format : OutputFormat
  showOffsets : Bool

namespace Settings

inductive Error where
  | badKey (fault : KeyPath.Fault)
  | badIndex (fault : Tree.IndexFault)
  | missingFile (name : Text)
  | notToml (file : Text)
  /-- A value of a kind that a single setting cannot be made of. -/
  | wrongKind (found expected key : Text) (file : Option Text)
  | noSuchFormat (name : Text)
  | notAFormat
  /-- Something else stands where a table is needed. -/
  | notATable (found table : Text)
  | missingKey (key : Text)
  /-- A list in the place of a table has too few members. -/
  | tooFew (length : Nat) (table : Text) (size : Nat)
deriving DecidableEq

namespace Error

def message : Error → Text
  | badKey fault => fault.message
  | badIndex fault => fault.message
  | missingFile name => "configuration file \"".toList ++ name ++ "\" not found".toList
  | notToml file => "invalid TOML in ".toList ++ file
  | wrongKind found expected key file =>
    "invalid type: ".toList ++ found ++ ", expected ".toList ++ expected ++ " for key `".toList ++
      key ++ ['`'] ++ match file with
        | some f => " in ".toList ++ f
        | none => []
  | noSuchFormat name =>
    "enum OutputFormat does not have variant constructor ".toList ++ name
  | notAFormat =>
    "value of enum OutputFormat should be represented by ".toList ++
      "either string or table with exactly one key".toList
  | notATable found table =>
    "invalid type: ".toList ++ found ++ ", expected struct ".toList ++ table
  | missingKey key => "missing field `".toList ++ key ++ ['`']
  | tooFew length table size =>
    "invalid length ".toList ++ Text.ofNat length ++ ", expected struct ".toList ++ table ++
      " with ".toList ++ Text.ofNat size ++ " elements".toList

end Error

def integerText (n : Int) : Text :=
  if n < 0 then '-' :: Text.ofNat n.natAbs else Text.ofNat n.natAbs

def booleanText (b : Bool) : Text := (if b then "true" else "false").toList

/-- The text that a value can stand for. -/
def text? : Tree → Option Text
  | .scalar (.text t) _ => some t
  | .scalar (.boolean b) _ => some (booleanText b)
  | .scalar (.integer n) _ => some (integerText n)
  | .scalar (.real x) _ => some x.render
  | _ => none

/-- The truth value that a value can stand for. Numbers other than zero are true. -/
def boolean? : Tree → Option Bool
  | .scalar (.boolean b) _ => some b
  | .scalar (.integer n) _ => some (n != 0)
  | .scalar (.real x) _ => some !x.isZero
  | .scalar (.text t) _ =>
    let t := t.lowercase
    if (["1", "true", "on", "yes"].map String.toList).contains t then some true
    else if (["0", "false", "off", "no"].map String.toList).contains t then some false
    else none
  | _ => none

def describe : Tree → Text
  | .scalar .null _ => "unit value".toList
  | .scalar (.text t) _ => "string ".toList ++ Text.quoted t.lowercase
  | .scalar _ _ => []
  | .list .. => "sequence".toList
  | .table .. => "map".toList

/-- What a value is called that stands in the place of a table. -/
def describeWhole : Tree → Text
  | .scalar .null _ => "unit value".toList
  | .scalar (.boolean b) _ => "boolean `".toList ++ booleanText b ++ ['`']
  | .scalar (.integer n) _ => "integer `".toList ++ integerText n ++ ['`']
  | .scalar (.real x) _ => "floating point `".toList ++ x.renderPointed ++ ['`']
  | .scalar (.text t) _ => "string ".toList ++ Text.quoted t
  | .list .. => "sequence".toList
  | .table .. => "map".toList

def readText (key : Text) (t : Tree) : Except Error Text :=
  match text? t with
  | some v => .ok v
  | none => .error (.wrongKind (describe t) "a string".toList key t.file)

def readBoolean (key : Text) (t : Tree) : Except Error Bool :=
  match boolean? t with
  | some v => .ok v
  | none => .error (.wrongKind (describe t) "a boolean".toList key t.file)

def formatOfName (name : Text) : Except Error OutputFormat :=
  match OutputFormat.ofName? name.lowercase with
  | some f => .ok f
  | none => .error (.noSuchFormat name)

/-- A format is given by its name, or as the only key of a table. -/
def readFormat : Tree → Except Error OutputFormat
  | .scalar (.text t) _ => formatOfName t
  | .table [(key, _)] _ => formatOfName key
  | _ => .error .notAFormat

/-- The members that a table has under some keys, or a list in the order of the keys. -/
def fields (name : Text) (tableName : Text) (keys : List Text) (t : Tree) :
    Except Error (List (Text × Option Tree)) :=
  match t with
  | .table .. => .ok (keys.map fun k => (name ++ '.' :: k, t.get? k))
  | .list ts _ =>
    .ok (keys.zipIdx.map fun (_, i) => (name ++ '[' :: Text.ofNat i ++ [']'], ts[i]?))
  | .scalar .. => .error (.notATable (describeWhole t) tableName)

def absent (tableName key : Text) (size : Nat) : Tree → Error
  | .list ts _ => .tooFew ts.length tableName size
  | _ => .missingKey key

def paletteName : Text := "palette".toList

def outputName : Text := "output".toList

/-- Reads the fields that are there before it asks for those that are not; of a list it reads one
after another. -/
def readColors (t : Tree) : Except Error (Category → Text) := do
  let tableName := "PaletteConfig".toList
  let found ← fields paletteName tableName (Category.all.map Category.key) t
  let values ← found.mapM fun
    | (key, some t) => do return some (← readText key t)
    | (_, none) => return none
  let texts := Category.all.zip values
  match texts.find? (·.2.isNone) with
  | some (c, _) => .error (absent tableName c.key Category.all.length t)
  | none => return fun c => ((texts.lookup c).bind id).getD []

def readOutput (t : Tree) : Except Error (OutputFormat × Bool) := do
  let tableName := "OutputConfig".toList
  let keys := ["format".toList, "show_offsets".toList]
  match ← fields outputName tableName keys t with
  | [(_, format), (key, offsets)] =>
    let format ← format.mapM readFormat
    let offsets ← offsets.mapM (readBoolean key)
    match format, offsets with
    | some f, some o => return (f, o)
    | none, _ => .error (absent tableName "format".toList 2 t)
    | _, none => .error (absent tableName "show_offsets".toList 2 t)
  | _ => .error .notAFormat

def ofTree (t : Tree) : Except Error Settings := do
  let part (name : Text) : Except Error Tree :=
    match t.get? name with
    | some p => .ok p
    | none => .error (.missingKey name)
  let colors ← readColors (← part paletteName)
  let (format, showOffsets) ← readOutput (← part outputName)
  return ⟨colors, format, showOffsets⟩

def defaultColor : Category → Text
  | .characterList => "#7fffd4".toList
  | .repetition => "#6495ed".toList
  | .listCharacter => "#ffa500".toList
  | .literalString => "none".toList
  | .group => "#d8bfd8".toList
  | .nonCapturingGroup => "#5f9ea0".toList
  | .alternation => "#40e0d0".toList
  | .anyChar => "dark_magenta".toList
  | .escape => "#556b2f".toList
  | .digit => "#00bfff".toList
  | .notDigit => "#d2691e".toList
  | .whitespace => "#87ceeb".toList
  | .wordBoundary => "#98fb98".toList
  | .wordCharacter => "#cd5c5c".toList

def defaults : Settings := ⟨defaultColor, .ansi, true⟩

def toTree (s : Settings) : Tree :=
  .table
    [(paletteName,
      .table (Category.all.map fun c => (c.key, .scalar (.text (s.colors c)) none)) none),
     (outputName,
      .table [("format".toList, .scalar (.text s.format.name) none),
        ("show_offsets".toList, .scalar (.boolean s.showOffsets) none)] none)]
    none

structure FileLayer where
  name : Text
  required : Bool

/-- What is laid over the defaults: files in the order they are named, and single values over all of
them. -/
structure Layers where
  files : List FileLayer
  overrides : List (KeyPath × Scalar)

namespace Layers

def empty : Layers := ⟨[], []⟩

def withFile (ls : Layers) (name : Text) : Layers := { ls with files := ls.files ++ [⟨name, true⟩] }

/-- One more file, which is passed over when it is not there. -/
def withOptionalFile (ls : Layers) (name : Text) : Layers :=
  { ls with files := ls.files ++ [⟨name, false⟩] }

/-- Sets one value, in place of what the same path was set to before. -/
def override (ls : Layers) (key : Text) (value : Scalar) : Except Error Layers :=
  match KeyPath.parse key with
  | .ok path => .ok { ls with overrides := ls.overrides.filter (·.1 ≠ path) ++ [(path, value)] }
  | .error fault => .error (.badKey fault)

def addFile (fs : Files) (root : Tree) (layer : FileLayer) : Except Error Tree :=
  match fs.readToml? layer.name with
  | some (name, text) =>
    match Toml.parse? text with
    | some es => (root.merge (Tree.ofTomlEntries name es)).mapError .badIndex
    | none => .error (.notToml name)
  | none => if layer.required then .error (.missingFile layer.name) else .ok root

def build (ls : Layers) (fs : Files) : Except Error Settings := do
  let root ← ls.files.foldlM (addFile fs) defaults.toTree
  let set (root : Tree) : KeyPath × Scalar → Except Tree.IndexFault Tree
    | (path, v) => root.set path (.scalar v none)
  ofTree (← (ls.overrides.foldlM set root).mapError .badIndex)

end Layers

end Settings

end PatternAnatomy
