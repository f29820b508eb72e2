import PatternAnatomy.Files

namespace PatternAnatomy

/-- The path to a file or directory from the top, the innermost part first. -/
abbrev Path := List Text

structure Directory where
  home : Path
  files : List (Path × Text)

namespace Directory

def pathParts (name : Text) : Path :=
  ((Files.parts name).filter fun p => !Files.leadsNowhere p).reverse

def ofName (home : Text) : Directory := ⟨pathParts home, []⟩

/-- The directory with one more file, or with another text in a file that it has. -/
def write (d : Directory) (name text : Text) : Directory :=
  let path := pathParts name ++ d.home
  { d with files := (path, text) :: d.files.filter (·.1 ≠ path) }

inductive Place where
  | file (text : Text)
  | folder (path : Path)

/-- A directory is made by what is inside of it. -/
def hasFolder (d : Directory) (path : Path) : Bool :=
  path.isSuffixOf d.home || d.files.any fun (p, _) => path.isSuffixOf p

/-- No part of a name has more bytes. -/
def partLimit : Nat := 255

/-- No name has more bytes. -/
def nameLimit : Nat := 4095

def enter (d : Directory) (path : Path) : Except Files.Fault Place :=
  match d.files.lookup path with
  | some text => .ok (.file text)
  | none => if d.hasFolder path then .ok (.folder path) else .error .missing

/-- Follows one part of a name. A file ends the way; above the top there is only the top again. -/
def follow (d : Directory) (place : Place) (part : Text) : Except Files.Fault Place :=
  match place with
  | .file _ => .error .notDirectory
  | .folder path =>
    if Files.leadsNowhere part then .ok (.folder path)
    else if part = Files.upward then .ok (.folder path.tail)
    else if partLimit < part.byteLength then .error .nameTooLong
    else d.enter (part :: path)

def find (d : Directory) (name : Text) : Except Files.Fault Place :=
  if name.isEmpty then .error .missing
  else if nameLimit < name.byteLength then .error .nameTooLong
  else (Files.parts name).foldlM d.follow
    (.folder (if name.head? = some '/' then [] else d.home))

def toFiles (d : Directory) : Files := fun name => do
  match ← d.find name with
  | .file text => return text
  | .folder _ => throw .isDirectory

end Directory

end PatternAnatomy
