import PatternAnatomy.Span

namespace PatternAnatomy

/-- Constructs that mean a single thing. Only `anyChar` and `escape` are ever read from a pattern;
the others stand for classes of characters that a maker of trees may want to show. -/
inductive Special where
  | anyChar | escape
  | digit | notDigit | whitespace | notWhitespace
  | wordBoundary | notWordBoundary | wordCharacter | notWordCharacter
deriving DecidableEq

inductive Item where
  | single (value : Char) (span : Span)
  | range (first last : Char) (span : Span)
deriving DecidableEq

/-- How often what stands before it may occur; without `max` there is no upper bound. -/
structure Repetition where
  min : Nat
  max : Option Nat
  lazy : Bool
deriving DecidableEq

inductive Node where
  | verbatim (value : Text) (span : Span)
  | special (kind : Special) (span : Span)
  /-- A bracketed list, of the characters meant or, when `negated`, of those left out. -/
  | charList (items : List Item) (negated : Bool) (span : Span)
  /-- A repetition stands after the node it repeats, not around it. -/
  | quantifier (repetition : Repetition) (span : Span)
  | group (children : List Node) (nonCapturing : Bool) (name : Option Text) (span : Span)
  | alternation (branches : List Node) (span : Span)

namespace Item

def span : Item → Span
  | single _ s => s
  | range _ _ s => s

end Item

namespace Repetition

def isUnbounded (r : Repetition) : Bool := r.max.isNone

end Repetition

namespace Node

def span : Node → Span
  | verbatim _ s => s
  | special _ s => s
  | charList _ _ s => s
  | quantifier _ s => s
  | group _ _ _ s => s
  | alternation _ s => s

def children : Node → List Node
  | group cs _ _ _ => cs
  | alternation bs _ => bs
  | _ => []

mutual

def beq : Node → Node → Bool
  | verbatim v s, verbatim w t => v == w && s == t
  | special k s, special l t => k == l && s == t
  | charList is n s, charList js m t => is == js && n == m && s == t
  | quantifier r s, quantifier q t => r == q && s == t
  | group cs n v s, group ds m w t => beqAll cs ds && n == m && v == w && s == t
  | alternation bs s, alternation ds t => beqAll bs ds && s == t
  | _, _ => false

def beqAll : List Node → List Node → Bool
  | [], [] => true
  | c :: cs, d :: ds => beq c d && beqAll cs ds
  | _, _ => false

end

mutual

theorem eq_of_beq : ∀ m n : Node, beq m n = true → m = n
  | verbatim .., verbatim .., h => by simp_all [beq]
  | special .., special .., h => by simp_all [beq]
  | charList .., charList .., h => by simp_all [beq]
  | quantifier .., quantifier .., h => by simp_all [beq]
  | group cs .., group ds .., h => by
    simp only [beq, Bool.and_eq_true, beq_iff_eq] at h
    obtain ⟨⟨⟨hcs, rfl⟩, rfl⟩, rfl⟩ := h
    rw [eq_of_beqAll cs ds hcs]
  | alternation bs _, alternation ds _, h => by
    simp only [beq, Bool.and_eq_true, beq_iff_eq] at h
    obtain ⟨hbs, rfl⟩ := h
    rw [eq_of_beqAll bs ds hbs]
  | verbatim .., special .., h | verbatim .., charList .., h | verbatim .., quantifier .., h
  | verbatim .., group .., h | verbatim .., alternation .., h
  | special .., verbatim .., h | special .., charList .., h | special .., quantifier .., h
  | special .., group .., h | special .., alternation .., h
  | charList .., verbatim .., h | charList .., special .., h | charList .., quantifier .., h
  | charList .., group .., h | charList .., alternation .., h
  | quantifier .., verbatim .., h | quantifier .., special .., h | quantifier .., charList .., h
  | quantifier .., group .., h | quantifier .., alternation .., h
  | group .., verbatim .., h | group .., special .., h | group .., charList .., h
  | group .., quantifier .., h | group .., alternation .., h
  | alternation .., verbatim .., h | alternation .., special .., h | alternation .., charList .., h
  | alternation .., quantifier .., h | alternation .., group .., h => by simp [beq] at h

theorem eq_of_beqAll : ∀ cs ds : List Node, beqAll cs ds = true → cs = ds
  | [], [], _ => rfl
  | c :: cs, d :: ds, h => by
    simp only [beqAll, Bool.and_eq_true] at h
    rw [eq_of_beq c d h.1, eq_of_beqAll cs ds h.2]
  | [], _ :: _, h | _ :: _, [], h => by simp [beqAll] at h

end

mutual

theorem beq_self : ∀ n : Node, beq n n = true
  | verbatim .. | special .. | charList .. | quantifier .. => by simp [beq]
  | group cs .. => by simp [beq, beqAll_self cs]
  | alternation bs _ => by simp [beq, beqAll_self bs]

theorem beqAll_self : ∀ cs : List Node, beqAll cs cs = true
  | [] => rfl
  | c :: cs => by simp [beqAll, beq_self c, beqAll_self cs]

end

instance : DecidableEq Node := fun m n =>
  decidable_of_iff (beq m n = true) ⟨eq_of_beq m n, fun h => h ▸ beq_self m⟩

end Node

end PatternAnatomy
