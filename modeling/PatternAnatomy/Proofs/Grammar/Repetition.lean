import PatternAnatomy.Grammar
import PatternAnatomy.Proofs.Reading.Acceptance

namespace PatternAnatomy

namespace Grammar

theorem digitsValue_concat (ds : Text) (d : Char) :
    digitsValue (ds ++ [d]) = 10 * digitsValue ds + (d.toNat - '0'.toNat) := by
  rw [digitsValue, List.foldl_append]
  rfl

theorem digitsValue_le_append (ds es : Text) : digitsValue ds ≤ digitsValue (ds ++ es) := by
  induction es generalizing ds with
  | nil => exact Nat.le_of_eq (by rw [List.append_nil])
  | cons e es ih =>
    have hnext := ih (ds ++ [e])
    rw [digitsValue_concat, List.append_assoc, List.singleton_append] at hnext
    omega

end Grammar

open Grammar

namespace Repetition

/-- Digits of a count, possibly none. -/
def IsCount (ds : Text) : Prop := (∀ d ∈ ds, d.isDigit = true) ∧ digitsValue ds < Nat.pow 2 32

theorem isCount_nil : IsCount [] := ⟨by simp, by simp [digitsValue]⟩

def countOf? (ds : Text) : Option Nat := if ds = [] then none else some (digitsValue ds)

inductive Written : Repetition → Text → Prop where
  | lazyStar : Written ⟨0, none, true⟩ ['*', '?']
  | lazyPlus : Written ⟨1, none, true⟩ ['+', '?']
  | plus : Written ⟨1, none, false⟩ ['+']
  | star : Written ⟨0, none, false⟩ ['*']
  | once : Written ⟨0, some 1, false⟩ ['?']
  | braces {ds es : Text} (hmin : IsCount ds) (hmax : IsCount es) :
    Written ⟨(countOf? ds).getD 0, countOf? es, false⟩ ('{' :: ds ++ ',' :: es ++ ['}'])

/-- Whether the sign `v` would be a longer one together with what follows it. -/
def Continues (v rest : Text) : Prop := (v = ['*'] ∨ v = ['+']) ∧ rest.head? = some '?'

theorem Written.ne_nil {r : Repetition} {v : Text} (h : r.Written v) : v ≠ [] := by
  cases h <;> simp

/-- A repetition begins with a sign that neither begins an atom nor comes behind one otherwise. -/
theorem Written.head? {r : Repetition} {v : Text} (h : r.Written v) : ∃ c, v.head? = some c ∧
    c ∈ significant ∧ c ∉ ['.', '\\', '[', '(', ')', '|'] := by
  cases h <;> exact ⟨_, rfl, by decide, by decide⟩

/-- Of a repetition without braces, the first characters write one, too. -/
theorem Written.of_append {r : Repetition} {v w : Text} (h : r.Written (v ++ w)) (hv : v ≠ [])
    (hno : (v ++ w).head? ≠ some '{') : ∃ r', Written r' v := by
  by_cases hw : w = []
  · subst hw
    exact ⟨r, by simpa using h⟩
  · obtain ⟨c, v, rfl⟩ := List.exists_cons_of_ne_nil hv
    obtain ⟨d, w, rfl⟩ := List.exists_cons_of_ne_nil hw
    generalize ht : c :: v ++ d :: w = t at h
    have hlen := congrArg List.length ht
    cases h with
    | lazyStar =>
      obtain ⟨rfl, rfl, -⟩ : c = '*' ∧ v = [] ∧ d = '?' ∧ w = [] := by
        simpa [List.append_eq_singleton_iff] using ht
      exact ⟨_, .star⟩
    | lazyPlus =>
      obtain ⟨rfl, rfl, -⟩ : c = '+' ∧ v = [] ∧ d = '?' ∧ w = [] := by
        simpa [List.append_eq_singleton_iff] using ht
      exact ⟨_, .plus⟩
    | plus | star | once => simp at hlen
    | braces => exact absurd (congrArg some (List.cons.inj ht).1) hno

/-- Digits that come first come first in the count that stands there. -/
theorem IsCount.small_of_append {as ds r y : Text} {c : Char} (has : IsCount as)
    (hc : c.isDigit = false) (hds : ∀ d ∈ ds, d.isDigit = true) (h : as ++ c :: r = ds ++ y) :
    digitsValue ds < Nat.pow 2 32 := by
  obtain ⟨es, rfl⟩ : ∃ es, as = ds ++ es := by
    rcases List.append_eq_append_iff.1 h with ⟨es, rfl, hr⟩ | ⟨es, rfl, -⟩
    · cases es with
      | nil => exact ⟨[], by simp⟩
      | cons e es =>
        have hdigit := hds e (by simp)
        rw [← (List.cons.inj hr).1, hc] at hdigit
        cases hdigit
    · exact ⟨es, rfl⟩
  exact Nat.lt_of_le_of_lt (digitsValue_le_append ds es) has.2

/-- A count that is too large has no place between braces. -/
theorem Written.small {q : Repetition} {w t es ds y : Text} (hq : q.Written w)
    (h : w ++ t = '{' :: es ++ (ds ++ y))
    (hes : es = [] ∨ ∃ cs, IsCount cs ∧ es = cs ++ [','])
    (hds : ∀ d ∈ ds, d.isDigit = true) : digitsValue ds < Nat.pow 2 32 := by
  cases hq with
  | @braces as bs hmin hmax =>
    have hmin' : as ++ ',' :: (bs ++ '}' :: t) = es ++ (ds ++ y) := by simpa using h
    rcases hes with rfl | ⟨cs, hcs, rfl⟩
    · exact hmin.small_of_append (by decide) hds hmin'
    · rw [List.append_assoc] at hmin'
      obtain rfl := Text.run_unique hmin.1 hcs.1 (by simp) (by simp) hmin'
      exact hmax.small_of_append (by decide) hds (List.cons.inj (List.append_cancel_left hmin')).2
  | _ => simp at h

end Repetition

namespace Grammar

open Reader Repetition

variable {s t u : Place}

theorem accepts_digits {ds : Text} : digits.Accepts s ds t ↔ ds ≠ [] ∧ s.Reads ds t ∧
    (∀ d ∈ ds, d.isDigit = true) ∧ ∀ c, t.rest.head? = some c → c.isDigit = false :=
  accepts_many1_satisfying

theorem accepts_count {n : Nat} : count.Accepts s n t ↔
    ∃ ds, digits.Accepts s ds t ∧ digitsValue ds < Nat.pow 2 32 ∧ n = digitsValue ds := by
  rcases digits.accepts_or_refuses s with ⟨ds, u, passed, h⟩ | ⟨o, h⟩
  · have hunique : ∀ es v, digits.Accepts s es v → es = ds ∧ v = u :=
      fun es v h' => h'.unique ⟨passed, h⟩
    by_cases hsmall : digitsValue ds < Nat.pow 2 32
    · simp only [Accepts, count, h, hsmall, ↓reduceIte, Outcome.accepted.injEq]
      grind
    · simp only [Accepts, count, h, hsmall, ↓reduceIte]
      grind
  · simp [Accepts, count, h]

theorem accepts_optional_count {o : Option Nat} (h : (optional count).Accepts s o t) :
    ∃ ds, IsCount ds ∧ s.Reads ds t ∧ o = countOf? ds := by
  rcases accepts_optional.1 h with ⟨n, rfl, hn⟩ | ⟨rfl, rfl, _⟩
  · obtain ⟨ds, hds, hsmall, rfl⟩ := accepts_count.1 hn
    obtain ⟨hne, hr, hdigits, _⟩ := accepts_digits.1 hds
    exact ⟨ds, ⟨hdigits, hsmall⟩, hr, by simp [countOf?, hne]⟩
  · exact ⟨[], isCount_nil, .refl _, rfl⟩

theorem count_refuses (hs : ∀ c, s.rest.head? = some c → c.isDigit = false) : count.Refuses s := by
  apply refuses_iff.2
  intro n u hn
  obtain ⟨ds, hds, -⟩ := accepts_count.1 hn
  obtain ⟨hne, hr, hdigits, -⟩ := accepts_digits.1 hds
  obtain ⟨d, ds, rfl⟩ := List.exists_cons_of_ne_nil hne
  have hdigit := hdigits d (by simp)
  have hno := hs d (by simp [hr.rest])
  rw [hdigit] at hno
  cases hno

/-- In front of a character that is no digit every count is read to its end. -/
theorem optional_count_accepts {ds : Text} (hds : IsCount ds) (hr : s.Reads ds t)
    (hend : ∀ c, t.rest.head? = some c → c.isDigit = false) :
    (optional count).Accepts s (countOf? ds) t := by
  rw [accepts_optional]
  by_cases hne : ds = []
  · subst hne
    obtain rfl := Place.Reads.nil_iff.1 hr
    exact .inr ⟨rfl, rfl, count_refuses hend⟩
  · refine .inl ⟨digitsValue ds, by simp [countOf?, hne], accepts_count.2 ⟨ds, ?_, hds.2, rfl⟩⟩
    exact accepts_digits.2 ⟨hne, hr, hds.1, hend⟩

theorem accepts_bounds {r : Repetition} : bounds.Accepts s r t ↔
    ∃ ds es, IsCount ds ∧ IsCount es ∧ s.Reads ('{' :: ds ++ ',' :: es ++ ['}']) t ∧
      r = ⟨(countOf? ds).getD 0, countOf? es, false⟩ := by
  simp only [bounds, accepts_bind, accepts_char, accepts_pure]
  constructor
  · rintro ⟨_, a, ha, min, b, hmin, _, c, hc, max, d, hmax, _, _, hd, rfl, rfl⟩
    obtain ⟨ds, hds, hrd, rfl⟩ := accepts_optional_count hmin
    obtain ⟨es, hes, hre, rfl⟩ := accepts_optional_count hmax
    refine ⟨ds, es, hds, hes, ?_, rfl⟩
    simpa using (ha.trans hrd).trans ((hc.trans hre).trans hd)
  · rintro ⟨ds, es, hds, hes, h, rfl⟩
    have hs : s.rest = '{' :: (ds ++ ',' :: (es ++ '}' :: t.rest)) := by simpa using h.rest
    have ha : s.Reads ['{'] _ := .of_append hs
    have hb : Place.Reads ⟨s.offset + 1, ds ++ ',' :: (es ++ '}' :: t.rest)⟩ ds _ := .of_append rfl
    have hc : Place.Reads ⟨s.offset + 1 + ds.length, ',' :: (es ++ '}' :: t.rest)⟩ [','] _ :=
      .of_append rfl
    have hd : Place.Reads ⟨s.offset + 1 + ds.length + 1, es ++ '}' :: t.rest⟩ es _ := .of_append rfl
    have he : Place.Reads ⟨s.offset + 1 + ds.length + 1 + es.length, '}' :: t.rest⟩ ['}'] t := by
      refine ⟨rfl, ?_⟩
      have ho := h.offset
      simp only [List.cons_append, List.length_cons, List.length_append, List.length_nil] at ho ⊢
      omega
    exact ⟨(), _, ha, _, _, optional_count_accepts hds hb (by simp), (), _, hc, _, _,
      optional_count_accepts hes hd (by simp), (), _, he, rfl, rfl⟩

theorem accepts_sign {v : Text} {r r' : Repetition} :
    (sign v r).Accepts s r' t ↔ r' = r ∧ s.Reads v t := by
  simp only [sign, accepts_bind, accepts_exactly, accepts_pure]
  constructor
  · rintro ⟨_, _, h, rfl, rfl⟩
    exact ⟨rfl, h⟩
  · rintro ⟨rfl, h⟩
    exact ⟨(), t, h, rfl, rfl⟩

theorem refuses_sign {v : Text} {r : Repetition} : (sign v r).Refuses s ↔ ¬ v <+: s.rest := by
  simp only [refuses_iff, accepts_sign]
  constructor
  · rintro h ⟨w, hw⟩
    exact h r _ ⟨rfl, .of_append hw.symm⟩
  · rintro h r' t ⟨_, hr⟩
    exact h ⟨t.rest, hr.rest.symm⟩

theorem continues_iff {c : Char} (h : s.Reads [c] t) (hc : c = '*' ∨ c = '+') :
    Continues [c] t.rest ↔ [c, '?'] <+: s.rest := by
  constructor
  · rintro ⟨_, hq⟩
    obtain ⟨w, hw⟩ := List.head?_eq_some_iff.1 hq
    exact ⟨w, by simp [h.rest, hw]⟩
  · rintro ⟨w, hw⟩
    have ht : '?' :: w = t.rest := by simpa [h.rest] using hw
    exact ⟨by simpa using hc, by simp [← ht]⟩

/-- A quantifier is read wherever a repetition is written, and as far as it goes. -/
theorem accepts_quantifier {n : Node} : quantifier.Accepts s n t ↔
    ∃ r v, r.Written v ∧ s.Reads v t ∧ ¬ Continues v t.rest ∧
      n = .quantifier r (.between s.offset t.offset) := by
  simp only [quantifier, accepts_within, accepts_spanned, accepts_bind, accepts_pure,
    accepts_orElse, accepts_sign, refuses_sign, accepts_bounds]
  constructor
  · rintro ⟨_, ⟨r, a, h, rfl, rfl⟩, rfl⟩
    rcases h with ⟨rfl, h⟩ | ⟨hstar, ⟨rfl, h⟩ | ⟨hplus, ⟨rfl, h⟩ | ⟨-, ⟨rfl, h⟩ | ⟨-, ⟨rfl, h⟩ |
      ⟨-, ds, es, hds, hes, h, rfl⟩⟩⟩⟩⟩
    · exact ⟨_, _, .lazyStar, h, by simp [Continues], rfl⟩
    · exact ⟨_, _, .lazyPlus, h, by simp [Continues], rfl⟩
    · exact ⟨_, _, .plus, h, mt (continues_iff h (.inr rfl)).1 hplus, rfl⟩
    · exact ⟨_, _, .star, h, mt (continues_iff h (.inl rfl)).1 hstar, rfl⟩
    · exact ⟨_, _, .once, h, by simp [Continues], rfl⟩
    · exact ⟨_, _, .braces hds hes, h, by simp [Continues], rfl⟩
  · rintro ⟨r, v, hw, h, hend, rfl⟩
    refine ⟨_, ⟨r, t, ?_, rfl, rfl⟩, rfl⟩
    have hs := h.rest
    -- A greedy sign is tried behind its lazy one, which refuses where the sign does not continue.
    cases hw with
    | lazyStar => exact .inl ⟨rfl, h⟩
    | lazyPlus => exact .inr ⟨by simp [hs], .inl ⟨rfl, h⟩⟩
    | plus =>
      have hplus := mt (continues_iff h (.inr rfl)).2 hend
      exact .inr ⟨by simp [hs], .inr ⟨hplus, .inl ⟨rfl, h⟩⟩⟩
    | star =>
      have hstar := mt (continues_iff h (.inl rfl)).2 hend
      exact .inr ⟨hstar, .inr ⟨by simp [hs], .inr ⟨by simp [hs], .inl ⟨rfl, h⟩⟩⟩⟩
    | once =>
      exact .inr ⟨by simp [hs], .inr ⟨by simp [hs], .inr ⟨by simp [hs], .inr ⟨by simp [hs],
        .inl ⟨rfl, h⟩⟩⟩⟩⟩
    | braces hds hes =>
      exact .inr ⟨by simp [hs], .inr ⟨by simp [hs], .inr ⟨by simp [hs], .inr ⟨by simp [hs],
        .inr ⟨by simp [hs], _, _, hds, hes, h, rfl⟩⟩⟩⟩⟩

end Grammar

end PatternAnatomy
