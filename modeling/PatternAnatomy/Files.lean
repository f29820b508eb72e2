import PatternAnatomy.Text

namespace PatternAnatomy

namespace Files

inductive Fault where
  | missing
  /-- A file stands where the name needs a directory. -/
  | notDirectory
  | isDirectory
  | nameTooLong
  | refused
  /-- The bytes of the file are not UTF-8. -/
  | notText
deriving DecidableEq

namespace Fault

def message : Fault → Text
  | missing => "No such file or directory (os error 2)".toList
  | notDirectory => "Not a directory (os error 20)".toList
  | isDirectory => "Is a directory (os error 21)".toList
  | nameTooLong => "File name too long (os error 36)".toList
  | refused => "Permission denied (os error 13)".toList
  | notText => "stream did not contain valid UTF-8".toList

end Fault

end Files

/-- What reading gives under each name. -/
abbrev Files := Text → Except Files.Fault Text

namespace Files

def empty : Files := fun _ => .error .missing

/-- A name that starts at the top: `home` is put before one that does not. -/
def fullName (home name : Text) : Text :=
  if name.head? = some '/' then name else home ++ '/' :: name

/-- What reading gives when every name is made full first, which leaves less room for it. -/
def under (home : Text) (fs : Files) : Files := fun name => fs (fullName home name)

def parts : Text → List Text
  | [] => [[]]
  | c :: cs =>
    if c = '/' then [] :: parts cs
    else match parts cs with
      | [] => [[c]]
      | p :: ps => (c :: p) :: ps

def upward : Text := ['.', '.']

def leadsNowhere (part : Text) : Bool := part == [] || part == ['.']

/-- A name inside the directory without the parts that lead nowhere. -/
def plainName (name : Text) : Text :=
  if name.head? = some '/' then name
  else Text.joined ['/'] ((parts name).filter fun p => !leadsNowhere p)

/-- The name with `.toml` behind its last part, after which nothing is left. A name that goes
nowhere in the end or upward has no such part. -/
def tomlName? (name : Text) : Option Text :=
  match (parts name).reverse.dropWhile leadsNowhere with
  | [] => none
  | part :: before =>
    if part = upward then none
    else some (Text.joined ['/'] ((part ++ ".toml".toList) :: before).reverse)

def readPlain? (fs : Files) (name : Text) : Option (Text × Text) :=
  match fs name with
  | .ok text => some (plainName name, text)
  | .error _ => none

/-- The file of a name, or else the one with `.toml` behind it. -/
def readToml? (fs : Files) (name : Text) : Option (Text × Text) :=
  (fs.readPlain? name).or ((tomlName? name).bind fs.readPlain?)

end Files

end PatternAnatomy
