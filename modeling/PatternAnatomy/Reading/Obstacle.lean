import PatternAnatomy.Construct
import PatternAnatomy.Span

namespace PatternAnatomy

inductive Cause where
  | unexpected
  /-- A repetition count of 2^32 or more. -/
  | countTooLarge (digits : Text)
deriving DecidableEq

/-- What was being read: nothing with a name, one construct, or different ones at the same place. -/
inductive Context where
  | unnamed
  | within (construct : Construct)
  | several
deriving DecidableEq

namespace Context

def join : Context → Context → Context
  | unnamed, b => b
  | a, unnamed => a
  | a, b => if a = b then a else several

/-- Names the construct, unless a single one is named already. -/
def orWithin (c : Construct) : Context → Context
  | within d => within d
  | _ => within c

def construct? : Context → Option Construct
  | within c => some c
  | _ => none

end Context

structure Obstacle where
  /-- How much of the text had been read when the obstacle was met. -/
  reach : Nat
  span : Span
  cause : Cause
  /-- The characters that would have been accepted; `none` is the end of the text. -/
  expected : List (Option Char)
  /-- What stands at the obstacle; `none` is the end of the text. -/
  found : Option Char
  context : Context
deriving DecidableEq

namespace Obstacle

/-- The one of two obstacles that lies further on. At the same place it is the first, which then
expects whatever either of them does. -/
def furthest (a b : Obstacle) : Obstacle :=
  if a.reach < b.reach then b
  else if b.reach < a.reach then a
  else { a with
    expected := a.expected ++ b.expected.filter (· ∉ a.expected)
    context := a.context.join b.context }

theorem reach_furthest (a b : Obstacle) : (a.furthest b).reach = max a.reach b.reach := by
  unfold furthest
  split
  · omega
  · split
    · omega
    · show a.reach = _
      omega

/-- A new obstacle, with the one that was passed before it. -/
def following (new : Obstacle) : Option Obstacle → Obstacle
  | some old => new.furthest old
  | none => new

def following? (new old : Option Obstacle) : Option Obstacle :=
  match new with
  | some o => some (o.following old)
  | none => old

def within (c : Construct) (o : Obstacle) : Obstacle :=
  { o with context := o.context.orWithin c }

end Obstacle

end PatternAnatomy
