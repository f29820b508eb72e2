import PatternAnatomy.Text

namespace PatternAnatomy

structure Span where
  offset : Nat
  length : Nat
deriving DecidableEq

namespace Span

/-- The characters from `start` up to but not including `stop`; empty when `stop` is not after
`start`. -/
def between (start stop : Nat) : Span := ⟨start, stop - start⟩

/-- One past the last character covered. -/
def stop (s : Span) : Nat := s.offset + s.length

def last? (s : Span) : Option Nat := if s.length = 0 then none else some (s.stop - 1)

def isEmpty (s : Span) : Bool := s.length == 0

def contains (s : Span) (i : Nat) : Bool := s.offset ≤ i && i < s.stop

def encloses (s t : Span) : Bool := s.offset ≤ t.offset && t.stop ≤ s.stop

/-- Whether each of the two starts before the other ends. -/
def overlaps (s t : Span) : Bool := s.offset < t.stop && t.offset < s.stop

/-- Spans are ordered by where they start, and then by length. -/
def precedes (s t : Span) : Bool :=
  s.offset < t.offset || (s.offset == t.offset && s.length ≤ t.length)

def render (s : Span) : Text := Text.ofNat s.offset ++ "..".toList ++ Text.ofNat s.stop

theorem stop_between {start stop : Nat} (h : start ≤ stop) : (between start stop).stop = stop := by
  simp only [Span.stop, between]
  omega

theorem contains_iff {s : Span} {i : Nat} : s.contains i = true ↔ s.offset ≤ i ∧ i < s.stop := by
  simp [contains]

theorem overlaps_iff {s t : Span} :
    s.overlaps t = true ↔ s.offset < t.stop ∧ t.offset < s.stop := by
  simp [overlaps]

end Span

end PatternAnatomy
