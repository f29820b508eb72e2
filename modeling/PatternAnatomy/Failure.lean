import PatternAnatomy.Grammar
import PatternAnatomy.Text.Quoted

namespace PatternAnatomy

structure Failure where
  message : Text
  /-- The number of characters that could be read. -/
  position : Nat
  /-- What could have stood at `position`, in the words of a reader of patterns. -/
  expected : List Text
deriving DecidableEq

namespace Failure

def render (f : Failure) : Text := f.message ++ " at offset ".toList ++ Text.ofNat f.position

end Failure

namespace Obstacle

/-- A character as a failure speaks of it; `none` is the end of the text. -/
def describe : Option Char → Text
  | some c => Text.quotedChar c
  | none => "end of input".toList

def describeExpected : Option Char → Text
  | some c => match Construct.openedBy? c with
    | some construct => construct.name
    | none => describe (some c)
  | none => describe none

def headline (o : Obstacle) : Text :=
  match o.cause with
  | .unexpected => "unexpected ".toList ++ describe o.found
  | .countTooLarge digits =>
    "invalid repetition count ".toList ++ digits ++
      ": number too large to fit in target type".toList

def message (o : Obstacle) : Text :=
  match o.context.construct? with
  | some c => o.headline ++ " while parsing ".toList ++ c.name
  | none => o.headline

/-- The names of the atoms that a character of their own opens. -/
def atomNames : List Text := [Construct.anyChar, .charList, .escape, .group].map Construct.name

/-- What was expected, in order. Where any atom can stand a verbatim run can, too; and the construct
that was being read comes last unless it is named already. -/
def expectedNames (o : Obstacle) : List Text :=
  let named := o.expected.map describeExpected
  let atoms := if named.any (· ∈ atomNames) then [Construct.verbatim.name] else []
  let names := Text.ordered (named ++ atoms)
  match o.context.construct? with
  | some c => if c.name ∈ names then names else names ++ [c.name]
  | none => names

def failure (o : Obstacle) : Failure := ⟨o.message, o.span.offset, o.expectedNames⟩

end Obstacle

/-- The nodes of a pattern from left to right, or why it is none. -/
def parse (pattern : Text) : Except Failure (List Node) :=
  match Grammar.whole (.start pattern) with
  | .accepted nodes _ _ => .ok nodes
  | .stuck o => .error o.failure

def parse? (pattern : Text) : Option (List Node) := (parse pattern).toOption

end PatternAnatomy
