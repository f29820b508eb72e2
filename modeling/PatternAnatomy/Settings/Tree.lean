import PatternAnatomy.Settings.KeyPath
import PatternAnatomy.Toml.Table

namespace PatternAnatomy

inductive Scalar where
  | null
  | boolean (b : Bool)
  | integer (n : Int)
  | real (x : Binary64)
  | text (t : Text)
deriving DecidableEq

/-- Each value remembers the file it came from; a merged table came from none. -/
inductive Tree where
  | scalar (value : Scalar) (file : Option Text)
  | list (members : List Tree) (file : Option Text)
  | table (entries : List (Text × Tree)) (file : Option Text)

namespace Tree

def null : Tree := scalar .null none

def emptyTable : Tree := table [] none

def file : Tree → Option Text
  | scalar _ f => f
  | list _ f => f
  | table _ f => f

def get? : Tree → Text → Option Tree
  | table es _, key => es.lookup key
  | _, _ => none

def putEntry (key : Text) (t : Tree) : List (Text × Tree) → List (Text × Tree)
  | [] => [(key, t)]
  | (k, u) :: es => if k = key then (key, t) :: es else (k, u) :: putEntry key t es

/-- Puts a tree under a key. What is no table becomes one first. -/
def put (root : Tree) (key : Text) (t : Tree) : Tree :=
  match root with
  | table es f => table (putEntry key t es) f
  | _ => table [(key, t)] none

mutual

/-- Lays a tree over what stands under a key of `root`. -/
def assign (root : Tree) (key : Text) : Tree → Tree
  | table es _ => root.put key (assignAll ((root.get? key).getD emptyTable) es)
  | list ts f => root.put key (list ts f)
  | scalar v f => root.put key (scalar v f)

def assignAll (root : Tree) : List (Text × Tree) → Tree
  | [] => root
  | (k, t) :: es => assignAll (assign root k.lowercase t) es

end

def members : Tree → List Tree
  | list ts _ => ts
  | _ => []

/-- Puts a tree at an index. What is no list becomes one first, and one that is too short is filled
up with nothing. -/
def putAt (root : Tree) (i : Nat) (t : Tree) : Tree :=
  let ts := root.members ++ List.replicate (i + 1 - root.members.length) null
  let f := match root with
    | list _ f => f
    | _ => none
  list (ts.set i t) f

inductive IndexFault where
  /-- It counts further back from the end than the list is long. -/
  | beforeStart
  /-- The list would need more room than there can be. -/
  | beyondRoom
deriving DecidableEq

namespace IndexFault

def message : IndexFault → Text
  | beforeStart => "attempt to subtract with overflow".toList
  | beyondRoom => "capacity overflow".toList

end IndexFault

/-- No list has more members: each takes 96 bytes, and all together fewer than 2⁶³. -/
def memberLimit : Nat := (Nat.pow 2 63 - 1) / 96

def position (root : Tree) (i : Int) : Except IndexFault Nat :=
  let length := root.members.length
  if 0 ≤ i then if i.toNat < memberLimit then .ok i.toNat else .error .beyondRoom
  else if i.natAbs ≤ length then .ok (length - i.natAbs)
  else .error .beforeStart

/-- Lays `t` over what stands at the end of a path from `root`. -/
def setAt (t : Tree) : List KeyPath.Step → Tree → Except IndexFault Tree
  | [], _ => .ok t
  | [.member name], root => .ok (root.assign name t)
  | .member name :: steps, root => do
    return root.put name (← setAt t steps ((root.get? name).getD null))
  | .index i :: steps, root => do
    let n ← root.position i
    return root.putAt n (← setAt t steps (root.members[n]?.getD null))

def set (root : Tree) (path : KeyPath) (t : Tree) : Except IndexFault Tree :=
  setAt t (.member path.first :: path.steps) root

mutual

def ofToml (file : Text) : Toml.Value → Tree
  | .text t => scalar (.text t) (some file)
  | .integer n => scalar (.integer n) (some file)
  | .real x => scalar (.real x) (some file)
  | .boolean b => scalar (.boolean b) (some file)
  | .moment t => scalar (.text t) (some file)
  | .array vs => list (ofTomlAll file vs) (some file)
  | .table es => table (ofTomlEntries file es) (some file)

def ofTomlAll (file : Text) : List Toml.Value → List Tree
  | [] => []
  | v :: vs => ofToml file v :: ofTomlAll file vs

def ofTomlEntries (file : Text) : List (Text × Toml.Value) → List (Text × Tree)
  | [] => []
  | (k, v) :: es => (k, ofToml file v) :: ofTomlEntries file es

end

/-- Lays a whole file over a tree. Its top keys are read as paths where they can be. -/
def merge (root : Tree) (entries : List (Text × Tree)) : Except IndexFault Tree :=
  entries.foldlM (fun root (key, t) =>
    match KeyPath.parse key with
    | .ok path => root.set path t
    | .error _ => .ok (root.assign key t)) root

end Tree

end PatternAnatomy
