import PatternAnatomy.Grammar
import PatternAnatomy.Proofs.Reading.Acceptance

namespace PatternAnatomy

/-- Whether a range could be read at the beginning of a text. -/
def Text.OpensRange (t : Text) : Prop := ∃ a b u, t = a :: '-' :: b :: u

theorem Text.opensRange_cons {c : Char} {t : Text} :
    OpensRange (c :: t) ↔ ∃ b u, t = '-' :: b :: u := by
  constructor
  · rintro ⟨a, b, u, h⟩
    exact ⟨b, u, (List.cons.inj h).2⟩
  · rintro ⟨b, u, rfl⟩
    exact ⟨c, b, u, rfl⟩

theorem Text.not_opensRange_of_head? {c : Char} {t : Text} (h : t.head? ≠ some '-') :
    ¬ OpensRange (c :: t) := by
  rw [opensRange_cons]
  rintro ⟨b, u, rfl⟩
  exact h rfl

namespace Item

inductive Spelled : Item → Place → Place → Prop where
  | range {s t : Place} {a b : Char} (h : s.Reads [a, '-', b] t) :
    Spelled (.range a b (.between s.offset t.offset)) s t
  | single {s t : Place} {c : Char} (h : s.Reads [c] t) (hc : c ≠ ']')
      (hs : ¬ s.rest.OpensRange) :
    Spelled (.single c (.between s.offset t.offset)) s t

inductive SpelledAll : List Item → Place → Place → Prop where
  | nil {s : Place} : SpelledAll [] s s
  | cons {i : Item} {is : List Item} {s t u : Place} (h : i.Spelled s t) (hs : SpelledAll is t u) :
    SpelledAll (i :: is) s u

theorem Spelled.reads {i : Item} {s t : Place} (h : i.Spelled s t) :
    ∃ v, v ≠ [] ∧ s.Reads v t := by
  cases h with
  | range h => exact ⟨_, by simp, h⟩
  | single h => exact ⟨_, by simp, h⟩

theorem Spelled.span_eq {i : Item} {s t : Place} (h : i.Spelled s t) :
    i.span = .between s.offset t.offset := by
  cases h <;> rfl

theorem SpelledAll.before {is : List Item} {s t : Place} (h : SpelledAll is s t) :
    s.Before t := by
  induction h with
  | nil => exact .refl _
  | cons h _ ih =>
    obtain ⟨v, -, hv⟩ := h.reads
    exact hv.before.trans ih

end Item

namespace Grammar

open Reader Item Text

variable {s t : Place} {i : Item}

theorem accepts_range : range.Accepts s i t ↔
    ∃ a b, s.Reads [a, '-', b] t ∧ i = .range a b (.between s.offset t.offset) := by
  simp only [range, accepts_within, accepts_spanned, accepts_bind, accepts_anyChar, accepts_char,
    accepts_pure]
  constructor
  · rintro ⟨_, ⟨a, u, ha, _, v, hv, b, w, hb, rfl, rfl⟩, rfl⟩
    exact ⟨a, b, ha.trans (hv.trans hb), rfl⟩
  · rintro ⟨a, b, h, rfl⟩
    obtain ⟨u, ha, h⟩ := Place.Reads.cons_iff.1 h
    obtain ⟨v, hv, hb⟩ := Place.Reads.cons_iff.1 h
    exact ⟨_, ⟨a, u, ha, (), v, hv, b, t, hb, rfl, rfl⟩, rfl⟩

theorem refuses_range : range.Refuses s ↔ ¬ s.rest.OpensRange := by
  simp only [refuses_iff, accepts_range]
  constructor
  · rintro h ⟨a, b, u, hs⟩
    exact h _ _ ⟨a, b, .of_append (v := [a, '-', b]) hs, rfl⟩
  · rintro h i t ⟨a, b, hr, -⟩
    exact h ⟨a, b, t.rest, hr.rest⟩

theorem accepts_singleChar : singleChar.Accepts s i t ↔
    ∃ c, s.Reads [c] t ∧ c ≠ ']' ∧ i = .single c (.between s.offset t.offset) := by
  simp only [singleChar, charExcept, accepts_spanned, accepts_bind, accepts_satisfying,
    accepts_pure, decide_eq_true_eq]
  constructor
  · rintro ⟨_, ⟨c, u, ⟨hc, hne⟩, rfl, rfl⟩, rfl⟩
    exact ⟨c, hc, hne, rfl⟩
  · rintro ⟨c, hc, hne, rfl⟩
    exact ⟨_, ⟨c, t, ⟨hc, hne⟩, rfl, rfl⟩, rfl⟩

theorem refuses_singleChar : singleChar.Refuses s ↔ ∀ c, s.rest.head? = some c → c = ']' := by
  simp only [refuses_iff, accepts_singleChar]
  constructor
  · intro h c hc
    obtain ⟨r, hr⟩ := List.head?_eq_some_iff.1 hc
    by_contra hne
    exact h _ _ ⟨c, .of_append (v := [c]) hr, hne, rfl⟩
  · rintro h i t ⟨c, hr, hne, -⟩
    exact hne (h c (by simp [hr.rest]))

theorem accepts_item : item.Accepts s i t ↔ i.Spelled s t := by
  rw [item, accepts_orElse, accepts_range, refuses_range, accepts_singleChar]
  constructor
  · rintro (⟨a, b, h, rfl⟩ | ⟨hs, c, h, hc, rfl⟩)
    · exact .range h
    · exact .single h hc hs
  · intro h
    cases h with
    | range h => exact .inl ⟨_, _, h, rfl⟩
    | single h hc hs => exact .inr ⟨hs, _, h, hc, rfl⟩

/-- No item can be read at the closing bracket or at the end, unless it is a range. -/
theorem refuses_item : item.Refuses s ↔
    ¬ s.rest.OpensRange ∧ ∀ c, s.rest.head? = some c → c = ']' := by
  rw [item, refuses_orElse, refuses_range, refuses_singleChar]

theorem advances_item : item.Advances := fun _ _ _ h => (accepts_item.1 h).reads

theorem repeats_item {is : List Item} :
    item.Repeats s is t ↔ SpelledAll is s t ∧ item.Refuses t := by
  constructor
  · intro h
    induction h with
    | done h => exact ⟨.nil, h⟩
    | more h _ ih => exact ⟨.cons (accepts_item.1 h) ih.1, ih.2⟩
  · rintro ⟨h, ht⟩
    induction h with
    | nil => exact .done ht
    | cons h _ ih => exact .more (accepts_item.2 h) (ih ht)

def opening (negated : Bool) : Text := if negated then ['[', '^'] else ['[']

theorem length_opening (negated : Bool) :
    (opening negated).length = 1 + if negated then 1 else 0 := by
  cases negated <;> rfl

theorem negated_iff {negated : Bool} {r : Text} (hr : negated = false → r.head? ≠ some '^') :
    negated = true ↔ ((opening negated ++ r).drop 1).head? = some '^' := by
  cases negated with
  | true => simp [opening]
  | false => simpa [opening] using hr rfl

theorem accepts_charList {n : Node} : charList.Accepts s n t ↔
    ∃ is negated a b, s.Reads (opening negated) a ∧ (negated = false → a.rest.head? ≠ some '^') ∧
      is ≠ [] ∧ SpelledAll is a b ∧ ¬ b.rest.OpensRange ∧ b.Reads [']'] t ∧
      n = .charList is negated (.between s.offset t.offset) := by
  simp only [charList, accepts_within, accepts_spanned, accepts_bind, accepts_char,
    accepts_optional, refuses_char, accepts_many1 advances_item, accepts_pure]
  constructor
  · rintro ⟨_, ⟨_, a, ha, caret, b, hcaret, is, c, ⟨i, js, d, hi, hjs, rfl⟩, _, _, hc, rfl, rfl⟩,
      rfl⟩
    obtain ⟨his, hend⟩ := repeats_item.1 (.more hi hjs)
    have hrange := (refuses_item.1 hend).1
    rcases hcaret with ⟨_, rfl, hb⟩ | ⟨rfl, rfl, hb⟩
    · exact ⟨_, true, b, c, ha.trans hb, by simp, by simp, his, hrange, hc, rfl⟩
    · exact ⟨_, false, b, c, ha, fun _ => hb, by simp, his, hrange, hc, rfl⟩
  · rintro ⟨is, negated, a, b, ha, hcaret, hne, his, hrange, hb, rfl⟩
    have hend : item.Refuses b := refuses_item.2 ⟨hrange, by simp [hb.rest]⟩
    obtain ⟨i, js, rfl⟩ := List.exists_cons_of_ne_nil hne
    rcases repeats_item.2 ⟨his, hend⟩ with _ | ⟨hi, hjs⟩
    cases negated with
    | true =>
      obtain ⟨c, hc, ha⟩ := Place.Reads.cons_iff.1 ha
      exact ⟨_, ⟨(), c, hc, some (), a, .inl ⟨(), rfl, ha⟩, _, b, ⟨i, js, _, hi, hjs, rfl⟩, (), t,
        hb, rfl, rfl⟩, rfl⟩
    | false =>
      exact ⟨_, ⟨(), a, ha, none, a, .inr ⟨rfl, rfl, hcaret rfl⟩, _, b, ⟨i, js, _, hi, hjs, rfl⟩,
        (), t, hb, rfl, rfl⟩, rfl⟩

end Grammar

end PatternAnatomy
