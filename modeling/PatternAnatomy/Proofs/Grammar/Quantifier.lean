import Mathlib.Data.List.Induction
import Mathlib.Data.Nat.Digits.Defs
import PatternAnatomy.Proofs.Grammar.Repetition

namespace PatternAnatomy

namespace Text

/-- The number that decimal digits write, the first of them in the highest place. -/
def decimal (ds : Text) : Nat := Nat.ofDigits 10 (ds.reverse.map fun d => d.toNat - '0'.toNat)

theorem decimal_concat (ds : Text) (d : Char) :
    decimal (ds ++ [d]) = d.toNat - '0'.toNat + 10 * decimal ds := by
  rw [decimal, List.reverse_append, List.reverse_singleton, List.singleton_append, List.map_cons,
    Nat.ofDigits_cons]
  rfl

end Text

namespace Grammar

/-- Digits that are taken from left to right write what they write by their places. -/
theorem digitsValue_eq_decimal (ds : Text) : digitsValue ds = ds.decimal := by
  induction ds using List.reverseRecOn with
  | nil => rfl
  | append_singleton ds d ih => rw [digitsValue_concat, Text.decimal_concat, ih, Nat.add_comm]

end Grammar

namespace Repetition

open Grammar

/-- Digits of a bound, possibly none and with any number of zeros in front. -/
structure IsBound (ds : Text) : Prop where
  digits : ∀ d ∈ ds, d.isDigit = true
  le : ds.decimal ≤ 4294967295

theorem isBound_iff {ds : Text} : IsBound ds ↔ IsCount ds := by
  have hpow : Nat.pow 2 32 = 4294967295 + 1 := rfl
  rw [IsCount, digitsValue_eq_decimal, hpow, Nat.lt_succ_iff]
  exact ⟨fun h => ⟨h.digits, h.le⟩, fun h => ⟨h.1, h.2⟩⟩

def braced (ds es : Text) : Text := '{' :: ds ++ ',' :: es ++ ['}']

/-- What the sign `v` denotes where `rest` stands behind it. -/
inductive Denoted (rest : Text) : Repetition → Text → Prop where
  | lazyStar : Denoted rest ⟨0, none, true⟩ ['*', '?']
  | lazyPlus : Denoted rest ⟨1, none, true⟩ ['+', '?']
  | star (h : rest.head? ≠ some '?') : Denoted rest ⟨0, none, false⟩ ['*']
  | plus (h : rest.head? ≠ some '?') : Denoted rest ⟨1, none, false⟩ ['+']
  | once : Denoted rest ⟨0, some 1, false⟩ ['?']
  | braces {ds es : Text} (hmin : IsBound ds) (hmax : IsBound es) :
    Denoted rest ⟨if ds = [] then 0 else ds.decimal, if es = [] then none else some es.decimal,
      false⟩ (braced ds es)

theorem getD_countOf? (ds : Text) : (countOf? ds).getD 0 = if ds = [] then 0 else ds.decimal := by
  rw [countOf?, digitsValue_eq_decimal]
  split <;> rfl

/-- A sign denotes a repetition where it is a way to write it and no longer sign stands there. -/
theorem denoted_iff {r : Repetition} {v rest : Text} :
    r.Denoted rest v ↔ r.Written v ∧ ¬ Continues v rest := by
  constructor
  · intro h
    cases h with
    | lazyStar => exact ⟨.lazyStar, by simp [Continues]⟩
    | lazyPlus => exact ⟨.lazyPlus, by simp [Continues]⟩
    | star h => exact ⟨.star, fun hq => h hq.2⟩
    | plus h => exact ⟨.plus, fun hq => h hq.2⟩
    | once => exact ⟨.once, by simp [Continues]⟩
    | braces hmin hmax =>
      have hw := Written.braces (isBound_iff.1 hmin) (isBound_iff.1 hmax)
      rw [getD_countOf?, countOf?, digitsValue_eq_decimal] at hw
      exact ⟨hw, by simp [Continues, braced]⟩
  · rintro ⟨hw, hend⟩
    cases hw with
    | lazyStar => exact .lazyStar
    | lazyPlus => exact .lazyPlus
    | star => exact .star fun hq => hend ⟨.inl rfl, hq⟩
    | plus => exact .plus fun hq => hend ⟨.inr rfl, hq⟩
    | once => exact .once
    | braces hmin hmax =>
      rw [getD_countOf?, countOf?, digitsValue_eq_decimal]
      exact .braces (isBound_iff.2 hmin) (isBound_iff.2 hmax)

def Opens (t : Text) : Prop :=
  (∃ c ∈ ['*', '+', '?'], t.head? = some c) ∨
    ∃ ds es, IsBound ds ∧ IsBound es ∧ braced ds es <+: t

theorem opens_iff {t : Text} : Opens t ↔ ∃ r v rest, t = v ++ rest ∧ Denoted rest r v := by
  constructor
  · rintro (⟨c, hc, ht⟩ | ⟨ds, es, hds, hes, rest, rfl⟩)
    · obtain ⟨rest, rfl⟩ := List.head?_eq_some_iff.1 ht
      -- Both greedy signs are the beginning of a lazy one.
      by_cases hq : rest.head? = some '?'
      · obtain ⟨u, rfl⟩ := List.head?_eq_some_iff.1 hq
        simp only [List.mem_cons, List.not_mem_nil, or_false] at hc
        rcases hc with rfl | rfl | rfl
        · exact ⟨_, _, u, rfl, .lazyStar⟩
        · exact ⟨_, _, u, rfl, .lazyPlus⟩
        · exact ⟨_, _, '?' :: u, rfl, .once⟩
      · simp only [List.mem_cons, List.not_mem_nil, or_false] at hc
        rcases hc with rfl | rfl | rfl
        · exact ⟨_, _, rest, rfl, .star hq⟩
        · exact ⟨_, _, rest, rfl, .plus hq⟩
        · exact ⟨_, _, rest, rfl, .once⟩
    · exact ⟨_, _, rest, rfl, .braces hds hes⟩
  · rintro ⟨r, v, rest, rfl, h⟩
    cases h with
    | lazyStar | star => exact .inl ⟨'*', by decide, rfl⟩
    | lazyPlus | plus => exact .inl ⟨'+', by decide, rfl⟩
    | once => exact .inl ⟨'?', by decide, rfl⟩
    | braces hmin hmax => exact .inr ⟨_, _, hmin, hmax, List.prefix_append _ _⟩

end Repetition

namespace Grammar

open Reader Repetition

variable {s t : Place} {n : Node}

theorem accepts_quantifier_iff_denoted : quantifier.Accepts s n t ↔
    ∃ r v, Denoted t.rest r v ∧ s.Reads v t ∧ n = .quantifier r ⟨s.offset, v.length⟩ := by
  rw [accepts_quantifier]
  constructor
  · rintro ⟨r, v, hw, h, hend, rfl⟩
    exact ⟨r, v, denoted_iff.2 ⟨hw, hend⟩, h, by rw [h.length_span]⟩
  · rintro ⟨r, v, hd, h, rfl⟩
    obtain ⟨hw, hend⟩ := denoted_iff.1 hd
    exact ⟨r, v, hw, h, hend, by rw [h.length_span]⟩

/-- A quantifier is read exactly where the text begins with one. What is read is the sign that
stands there, as far as it goes, and the repetition that the sign denotes. -/
theorem quantifier_reads_sign (s : Place) :
    ((∃ n t, quantifier.Accepts s n t) ↔ Opens s.rest) ∧
      ∀ n t, quantifier.Accepts s n t ↔
        ∃ r v, Denoted t.rest r v ∧ s.Reads v t ∧ n = .quantifier r ⟨s.offset, v.length⟩ := by
  refine ⟨?_, fun n t => accepts_quantifier_iff_denoted⟩
  simp only [accepts_quantifier_iff_denoted, opens_iff]
  constructor
  · rintro ⟨n, t, r, v, hd, h, -⟩
    exact ⟨r, v, t.rest, h.rest, hd⟩
  · rintro ⟨r, v, rest, hs, hd⟩
    exact ⟨_, _, r, v, hd, .of_append hs, rfl⟩

/-- The bound is on the number and not on its digits. -/
example :
    (quantifier (.start "{,0004294967295}?".toList)).value? =
      some (.quantifier ⟨0, some 4294967295, false⟩ ⟨0, 16⟩) ∧
    (quantifier (.start "{,4294967296}".toList)).value? = none := by
  decide +kernel

end Grammar

end PatternAnatomy
