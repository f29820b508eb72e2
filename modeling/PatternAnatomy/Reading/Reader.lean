import PatternAnatomy.Reading.Obstacle

namespace PatternAnatomy

structure Place where
  offset : Nat
  rest : Text
deriving DecidableEq

inductive Outcome (α : Type) where
  | accepted (value : α) (next : Place) (passed : Option Obstacle)
  | stuck (obstacle : Obstacle)
deriving DecidableEq

/-- Reads from a place on. A reader that accepts also tells the obstacle that ended the longest
other way it tried. -/
def Reader (α : Type) := Place → Outcome α

namespace Place

def start (t : Text) : Place := ⟨0, t⟩

/-- The obstacle of finding something here that is not `expected`. -/
def obstacle (s : Place) (expected : List (Option Char)) : Obstacle where
  reach := s.offset
  span := ⟨s.offset, if s.rest.isEmpty then 0 else 1⟩
  cause := .unexpected
  expected := expected
  found := s.rest.head?
  context := .unnamed

end Place

namespace Outcome

/-- The outcome with the obstacle that was passed before. -/
def after (earlier : Option Obstacle) : Outcome α → Outcome α
  | accepted a s passed => accepted a s (Obstacle.following? passed earlier)
  | stuck o => stuck (o.following earlier)

def within (c : Construct) : Outcome α → Outcome α
  | accepted a s passed => accepted a s (passed.map (·.within c))
  | stuck o => stuck (o.within c)

def value? : Outcome α → Option α
  | accepted a _ _ => some a
  | stuck _ => none

end Outcome

namespace Reader

def accept (a : α) : Reader α := fun s => .accepted a s none

def andThen (p : Reader α) (f : α → Reader β) : Reader β := fun s =>
  match p s with
  | .accepted a t passed => (f a t).after passed
  | .stuck o => .stuck o

instance : Monad Reader where
  pure := accept
  bind := andThen

@[simp] theorem pure_apply (a : α) (s : Place) : (pure a : Reader α) s = .accepted a s none := rfl

theorem bind_of_accepted {p : Reader α} {s t : Place} {a : α} {passed : Option Obstacle}
    (h : p s = .accepted a t passed) (f : α → Reader β) : (p >>= f) s = (f a t).after passed := by
  simp only [bind, andThen, h]

theorem bind_of_stuck {p : Reader α} {s : Place} {o : Obstacle} (h : p s = .stuck o)
    (f : α → Reader β) : (p >>= f) s = .stuck o := by
  simp only [bind, andThen, h]

/-- The first of two ways that succeeds; what stopped the first is forgotten when the second
succeeds. -/
def orElse (p q : Reader α) : Reader α := fun s =>
  match p s with
  | .accepted a t passed => .accepted a t passed
  | .stuck o =>
    match q s with
    | .accepted a t passed => .accepted a t passed
    | .stuck o' => .stuck (o'.following (some o))

instance : OrElse (Reader α) where
  orElse p q := orElse p (q ())

def optional (p : Reader α) : Reader (Option α) := fun s =>
  match p s with
  | .accepted a t passed => .accepted (some a) t passed
  | .stuck o => .accepted none s (some o)

/-- Reads as often as it can, but not more than the given number of times. -/
def upTo (p : Reader α) : Nat → Reader (List α)
  | 0 => accept []
  | n + 1 => fun s =>
    match p s with
    | .accepted a t passed => ((upTo p n).andThen fun as => accept (a :: as)) t |>.after passed
    | .stuck o => .accepted [] s (some o)

/-- One round more than there are characters left is enough, unless empty texts are accepted. -/
def many (p : Reader α) : Reader (List α) := fun s => p.upTo (s.rest.length + 1) s

def many1 (p : Reader α) : Reader (List α) := do
  let a ← p
  let as ← p.many
  return a :: as

/-- One or more, with `separator` between neighbours. A separator that nothing follows is left
unread. -/
def separatedBy (p : Reader α) (separator : Reader Unit) : Reader (List α) := do
  let a ← p
  let as ← (separator.andThen fun _ => p).many
  return a :: as

def within (c : Construct) (p : Reader α) : Reader α := fun s => (p s).within c

/-- Gives what is read the span of the characters it was read from. -/
def spanned (p : Reader (Span → α)) : Reader α := fun s =>
  match p s with
  | .accepted f t passed => .accepted (f (.between s.offset t.offset)) t passed
  | .stuck o => .stuck o

def satisfying (test : Char → Bool) : Reader Char := fun s =>
  match s.rest with
  | c :: cs => if test c then .accepted c ⟨s.offset + 1, cs⟩ none else .stuck (s.obstacle [])
  | [] => .stuck (s.obstacle [])

def char (c : Char) : Reader Unit := fun s =>
  match s.rest with
  | d :: cs => if d = c then .accepted () ⟨s.offset + 1, cs⟩ none else .stuck (s.obstacle [some c])
  | [] => .stuck (s.obstacle [some c])

def exactly : Text → Reader Unit
  | [] => accept ()
  | c :: cs => (char c).andThen fun _ => exactly cs

def anyChar : Reader Char := satisfying fun _ => true

def endOfText : Reader Unit := fun s =>
  match s.rest with
  | [] => .accepted () s none
  | _ :: _ => .stuck (s.obstacle [none])

/-- Fails where something is left of the text. -/
def complete (p : Reader α) : Reader α := do
  let a ← p
  endOfText
  return a

end Reader

end PatternAnatomy
