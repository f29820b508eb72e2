import PatternAnatomy.Proofs.Node.Source

namespace PatternAnatomy

/-- Whether behind the character at `i` a dash stands and another character behind the dash. -/
def Text.RangeAt (p : Text) (i : Nat) : Prop := p[i + 1]? = some '-' ∧ i + 2 < p.length

theorem Text.rangeAt_iff {p : Text} {i : Nat} : p.RangeAt i ↔ OpensRange (p.drop i) := by
  constructor
  · rintro ⟨hdash, hlength⟩
    have hget : p[i + 1] = '-' := (List.getElem?_eq_some_iff.1 hdash).2
    refine ⟨p[i], p[i + 2], p.drop (i + 3), ?_⟩
    rw [List.drop_eq_getElem_cons (by omega), List.drop_eq_getElem_cons (i := i + 1) (by omega),
      List.drop_eq_getElem_cons (i := i + 2) hlength, hget]
  · rintro ⟨a, b, u, h⟩
    have hlength := congrArg List.length h
    simp only [List.length_drop, List.length_cons] at hlength
    have hdash : (p.drop i)[1]? = some '-' := by
      rw [h]
      rfl
    rw [List.getElem?_drop] at hdash
    exact ⟨hdash, by omega⟩

theorem Place.Before.rangeAt_iff {p : Text} {s : Place} (h : (start p).Before s) :
    p.RangeAt s.offset ↔ s.rest.OpensRange := by
  rw [Text.rangeAt_iff, h.rest_eq_drop]

namespace Item

variable {i : Item} {is : List Item} {s t : Place}

theorem SpelledAll.exists_spelled (h : SpelledAll is s t) (hi : i ∈ is) :
    ∃ a b, s.Before a ∧ i.Spelled a b := by
  induction h with
  | nil => cases hi
  | @cons j js s a t hj _ ih =>
    rcases List.mem_cons.1 hi with rfl | hi
    · exact ⟨s, a, .refl s, hj⟩
    · obtain ⟨b, c, hb, hc⟩ := ih hi
      obtain ⟨v, -, hv⟩ := hj.reads
      exact ⟨b, c, hv.before.trans hb, hc⟩

def IsRange : Item → Prop
  | single .. => False
  | range .. => True

/-- An item is a range wherever it could be one. -/
theorem Spelled.isRange_iff (h : i.Spelled s t) : i.IsRange ↔ s.rest.OpensRange := by
  cases h with
  | @range _ _ a b h => exact iff_of_true trivial ⟨a, b, t.rest, h.rest⟩
  | single _ _ hs => exact iff_of_false id hs

end Item

namespace Node

variable {p : Text} {nodes : List Node}

/-- Ranges are taken wherever they can be: no single character of a list stands where the text has a
range, every other item does, and the bracket that closes a list stands where the text has none. -/
theorem ranges_bind_first (h : parse p = .ok nodes) {is : List Item} {negated : Bool} {sp : Span}
    (hm : .charList is negated sp ∈ subnodesAll nodes) :
    (∀ c s, .single c s ∈ is → ¬ p.RangeAt s.offset) ∧
      (∀ a b s, .range a b s ∈ is → p.RangeAt s.offset) ∧
      ∃ j, sp.last? = some j ∧ p[j]? = some ']' ∧ ¬ p.RangeAt j := by
  obtain ⟨s, t, hs, hlist, -⟩ := spelledWithin_of_parse h hm
  cases hlist with
  | charList ha _ _ his hrange hb =>
    have hitems : ∀ i ∈ is, i.IsRange ↔ p.RangeAt i.span.offset := by
      intro i hi
      obtain ⟨c, d, hc, hspelled⟩ := his.exists_spelled hi
      have hbefore := (hs.trans ha.before).trans hc
      rw [hspelled.isRange_iff, hspelled.span_eq]
      exact hbefore.rangeAt_iff.symm
    have hclose := hs.trans (ha.before.trans his.before)
    refine ⟨fun c s hi => mt (hitems _ hi).2 id, fun a b s hi => (hitems _ hi).1 trivial,
      _, (ha.before.trans his.before).last?_span hb, ?_, ?_⟩
    · rw [hclose.getElem?, hb.rest]
      rfl
    · rwa [hclose.rangeAt_iff]

theorem ranges_bind_first_dashes :
    ∃ nodes, parse "([^a-b-c]|[--a-])".toList = .ok nodes ∧
      .charList [.range 'a' 'b' ⟨3, 3⟩, .single '-' ⟨6, 1⟩, .single 'c' ⟨7, 1⟩] true ⟨1, 8⟩ ∈
        subnodesAll nodes ∧
      ¬ Text.RangeAt "([^a-b-c]|[--a-])".toList 6 ∧ ¬ Text.RangeAt "([^a-b-c]|[--a-])".toList 7 ∧
      Text.RangeAt "([^a-b-c]|[--a-])".toList 3 ∧ ¬ Text.RangeAt "([^a-b-c]|[--a-])".toList 8 := by
  let list : Node :=
    .charList [.range 'a' 'b' ⟨3, 3⟩, .single '-' ⟨6, 1⟩, .single 'c' ⟨7, 1⟩] true ⟨1, 8⟩
  have h : parse "([^a-b-c]|[--a-])".toList = .ok [.group [.alternation [list,
      .charList [.range '-' 'a' ⟨11, 3⟩, .single '-' ⟨14, 1⟩] false ⟨10, 6⟩] ⟨1, 15⟩]
        false none ⟨0, 17⟩] := by
    decide +kernel
  have hm : list ∈ subnodesAll [.group [.alternation [list,
      .charList [.range '-' 'a' ⟨11, 3⟩, .single '-' ⟨14, 1⟩] false ⟨10, 6⟩] ⟨1, 15⟩]
        false none ⟨0, 17⟩] :=
    mem_subnodesAll_cons.2 (.inr (.inl (mem_subnodesAll_cons.2 (.inr (.inl
      (mem_subnodesAll_cons.2 (.inl rfl)))))))
  obtain ⟨hsingle, hrange, j, hj, -, hend⟩ := ranges_bind_first h hm
  obtain rfl : 8 = j := Option.some.inj hj
  exact ⟨_, h, hm, hsingle '-' ⟨6, 1⟩ (by simp), hsingle 'c' ⟨7, 1⟩ (by simp),
    hrange 'a' 'b' ⟨3, 3⟩ (by simp), hend⟩

end Node

end PatternAnatomy
