import Mathlib.Data.List.Chain
import PatternAnatomy.Decoration.Order

namespace PatternAnatomy

variable {a b c : Decoration} {before ds : List Decoration} {x : Disorder}

namespace Decoration

def EndsBefore (a b : Decoration) : Prop := a.stop ≤ b.start

theorem start_le_stop (a : Decoration) : a.start ≤ a.stop := Nat.le_add_right _ _

theorem EndsBefore.trans (h : a.EndsBefore b) (h' : b.EndsBefore c) : a.EndsBefore c :=
  Nat.le_trans h (Nat.le_trans b.start_le_stop h')

instance : Trans EndsBefore EndsBefore EndsBefore := ⟨EndsBefore.trans⟩

end Decoration

open Decoration

namespace Disorder

/-- How two neighbours are called that are not in order. -/
def between (a b : Decoration) : Disorder :=
  if b.start < a.start then .reversed a b else .overlapping a b

theorem between_cases (a b : Decoration) :
    b.start < a.start ∧ between a b = .reversed a b ∨
      a.start ≤ b.start ∧ between a b = .overlapping a b := by
  by_cases h : b.start < a.start
  · exact .inl ⟨h, if_pos h⟩
  · exact .inr ⟨Nat.le_of_not_lt h, if_neg h⟩

def outOfOrderText : Text := "Primitive tokens out of order: ".toList

theorem outOfOrderText_prefix_message_iff :
    outOfOrderText <+: (between a b).message ↔ b.start < a.start := by
  rcases between_cases a b with ⟨h, heq⟩ | ⟨h, heq⟩
  · refine iff_of_true ?_ h
    rw [heq]
    have hfirst : outOfOrderText <+: outOfOrderText ++ a.render := List.prefix_append _ _
    exact (hfirst.trans (List.prefix_append _ _)).trans (List.prefix_append _ _)
  · refine iff_of_false ?_ (Nat.not_lt.2 h)
    rw [heq]
    rintro ⟨r, hr⟩
    have hletter : some 'u' = some 'v' := congrArg (fun t : Text => (t.drop 18).head?) hr
    exact absurd hletter (by decide)

end Disorder

namespace Decoration

theorem disorder?_of_endsBefore (h : a.EndsBefore b) :
    disorder? (a :: b :: ds) = disorder? (b :: ds) := by
  have hstart : ¬ b.start < a.start := Nat.not_lt.2 (Nat.le_trans a.start_le_stop h)
  rw [disorder?, if_neg hstart, if_neg (Nat.not_lt.2 h)]

theorem disorder?_of_not_endsBefore (h : ¬ a.EndsBefore b) :
    disorder? (a :: b :: ds) = some (.between a b) := by
  have hstop : b.start < a.stop := Nat.lt_of_not_le h
  unfold disorder? Disorder.between
  split
  · rfl
  · rfl

theorem disorder?_append (h : (before ++ [a]).IsChain EndsBefore) :
    disorder? (before ++ a :: ds) = disorder? (a :: ds) := by
  induction before with
  | nil => rfl
  | cons d before ih =>
    have htail := ih h.tail
    cases before with
    | nil => exact disorder?_of_endsBefore h.rel
    | cons e before => exact (disorder?_of_endsBefore h.rel).trans htail

theorem disorder?_eq_none_iff : disorder? ds = none ↔ ds.IsChain EndsBefore := by
  induction ds using List.twoStepInduction with
  | nil => exact iff_of_true rfl .nil
  | singleton a => exact iff_of_true rfl (.singleton a)
  | cons_cons a b ds _ ih =>
    rw [List.isChain_cons_cons]
    by_cases h : a.EndsBefore b
    · rw [disorder?_of_endsBefore h, ih, and_iff_right h]
    · rw [disorder?_of_not_endsBefore h]
      exact iff_of_false (Option.some_ne_none _) fun hchain => h hchain.1

theorem exists_of_not_isChain (h : ¬ ds.IsChain EndsBefore) : ∃ before a b after,
    ds = before ++ a :: b :: after ∧ (before ++ [a]).IsChain EndsBefore ∧ ¬ a.EndsBefore b := by
  induction ds using List.twoStepInduction with
  | nil => exact absurd .nil h
  | singleton a => exact absurd (.singleton a) h
  | cons_cons a b ds _ ih =>
    by_cases hab : a.EndsBefore b
    · obtain ⟨before, c, d, after, hds, hchain, hcd⟩ :=
        ih b fun hchain => h (.cons_cons hab hchain)
      refine ⟨a :: before, c, d, after, congrArg (a :: ·) hds, ?_, hcd⟩
      -- The decoration behind `a` is `b`, be it the first one out of order or not.
      cases before with
      | nil | cons => exact .cons_cons ((List.cons.inj hds).1 ▸ hab) hchain
    · exact ⟨[], a, b, ds, rfl, .singleton a, hab⟩

theorem disorder?_eq_some_iff : disorder? ds = some x ↔ ∃ before a b after,
    ds = before ++ a :: b :: after ∧ (before ++ [a]).IsChain EndsBefore ∧ ¬ a.EndsBefore b ∧
      x = .between a b := by
  constructor
  · intro h
    have hno : ¬ ds.IsChain EndsBefore := fun hchain => by
      rw [disorder?_eq_none_iff.2 hchain] at h
      cases h
    obtain ⟨before, a, b, after, rfl, hchain, hab⟩ := exists_of_not_isChain hno
    rw [disorder?_append hchain, disorder?_of_not_endsBefore hab] at h
    exact ⟨before, a, b, after, rfl, hchain, hab, (Option.some.inj h).symm⟩
  · rintro ⟨before, a, b, after, rfl, hchain, hab, rfl⟩
    rw [disorder?_append hchain, disorder?_of_not_endsBefore hab]

/-- Nothing is told just when every decoration ends before all later ones start. Otherwise the first
neighbours are told that are not in order, and called out of order just when the first of them
starts behind the second. -/
theorem disorder?_tells_first_neighbours (ds : List Decoration) :
    (disorder? ds = none ↔ ds.Pairwise fun a b => a.stop ≤ b.start) ∧
    ∀ x, disorder? ds = some x ↔ ∃ before a b after, ds = before ++ a :: b :: after ∧
      (before ++ [a]).IsChain (fun a b => a.stop ≤ b.start) ∧ b.start < a.stop ∧
      (b.start < a.start ∧ x = .reversed a b ∨ a.start ≤ b.start ∧ x = .overlapping a b) ∧
      (Disorder.outOfOrderText <+: x.message ↔ b.start < a.start) := by
  refine ⟨disorder?_eq_none_iff.trans List.isChain_iff_pairwise, fun x => ?_⟩
  rw [disorder?_eq_some_iff]
  constructor
  · rintro ⟨before, a, b, after, hds, hchain, hab, rfl⟩
    exact ⟨before, a, b, after, hds, hchain, Nat.lt_of_not_le hab, Disorder.between_cases a b,
      Disorder.outOfOrderText_prefix_message_iff⟩
  · rintro ⟨before, a, b, after, hds, hchain, hab, hx, -⟩
    refine ⟨before, a, b, after, hds, hchain, Nat.not_le_of_lt hab, ?_⟩
    rcases hx with ⟨h, rfl⟩ | ⟨h, rfl⟩
    · exact (if_pos h).symm
    · exact (if_neg (Nat.not_lt.2 h)).symm

/-- A decoration of nothing inside another one shares no character with it and is told still. -/
example : disorder? [⟨.anyChar, 0, 0⟩, ⟨.escape, 0, 3⟩, ⟨.groupEnd, 1, 0⟩, ⟨.groupStart, 0, 1⟩] =
    some (.overlapping ⟨.escape, 0, 3⟩ ⟨.groupEnd, 1, 0⟩) := by
  decide

end Decoration

end PatternAnatomy
