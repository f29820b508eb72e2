import PatternAnatomy.Proofs.Failure.Position
import PatternAnatomy.Proofs.Node.Excerpt
import PatternAnatomy.Proofs.Text.Quotation

namespace PatternAnatomy

open Grammar

theorem Text.mem_insertOrdered {s t : Text} {ts : List Text} :
    s ∈ insertOrdered t ts ↔ s = t ∨ s ∈ ts := by
  induction ts with
  | nil => simp [insertOrdered]
  | cons u us ih =>
    unfold insertOrdered
    split
    · exact List.mem_cons
    · split
      next h => simp [h]
      next => rw [List.mem_cons, List.mem_cons, ih, or_left_comm]

theorem Text.mem_ordered {s : Text} {ts : List Text} : s ∈ ordered ts ↔ s ∈ ts := by
  induction ts with
  | nil => exact Iff.rfl
  | cons t ts ih =>
    rw [ordered, List.foldr_cons, mem_insertOrdered, List.mem_cons]
    exact or_congr_right ih

theorem Construct.head?_name (k : Construct) : k.name.head? ≠ some '\'' := by
  cases k <;> decide

theorem Construct.name_injective {k l : Construct} (h : k.name = l.name) : k = l := by
  cases k <;> cases l <;> first | rfl | exact absurd h (by decide)

theorem Construct.name_ne_endOfInput (k : Construct) : k.name ≠ "end of input".toList := by
  cases k <;> decide

theorem Construct.openedBy?_eq_alternation {c : Char} (h : openedBy? c = some alternation) :
    c = '|' := by
  unfold openedBy? at h
  split at h <;> simp_all

theorem Context.construct?_eq_some {x : Context} {k : Construct} (h : x.construct? = some k) :
    x = .within k := by
  cases x <;> cases h
  rfl

namespace Obstacle

variable {o : Obstacle} {e : Option Char} {t : Text}

theorem of_mem_expectedNames (h : t ∈ o.expectedNames) :
    (∃ e ∈ o.expected, describeExpected e = t) ∨ t = Construct.verbatim.name ∨
      ∃ k, o.context = .within k ∧ t = k.name := by
  unfold expectedNames at h
  extract_lets named atoms names at h
  have hnames : t ∈ names → (∃ e ∈ o.expected, describeExpected e = t) ∨
      t = Construct.verbatim.name := by
    intro ht
    rcases List.mem_append.1 (Text.mem_ordered.1 ht) with ht | ht
    · exact .inl (List.mem_map.1 ht)
    · have hatoms : atoms ⊆ [Construct.verbatim.name] := by
        unfold atoms
        split <;> simp
      exact .inr (List.mem_singleton.1 (hatoms ht))
  split at h
  next k hk =>
    split at h
    · exact (hnames h).imp_right .inl
    · rcases List.mem_append.1 h with h | h
      · exact (hnames h).imp_right .inl
      · exact .inr (.inr ⟨k, Context.construct?_eq_some hk, List.mem_singleton.1 h⟩)
  next => exact (hnames h).imp_right .inl

theorem describeExpected_cases (h : describeExpected e = t) :
    (e = none ∧ t = "end of input".toList) ∨
      (∃ c k, e = some c ∧ Construct.openedBy? c = some k ∧ t = k.name) ∨
      ∃ c, e = some c ∧ t = Text.quotedChar c := by
  unfold describeExpected at h
  split at h
  next c =>
    split at h
    next k hk => exact .inr (.inl ⟨c, k, rfl, hk, h.symm⟩)
    next => exact .inr (.inr ⟨c, rfl, h.symm⟩)
  next => exact .inl ⟨rfl, h.symm⟩

theorem describeExpected_eq_quotedChar {c : Char} (h : describeExpected e = Text.quotedChar c) :
    e = some c := by
  rcases describeExpected_cases h with ⟨-, ht⟩ | ⟨_, k, -, -, ht⟩ | ⟨d, rfl, ht⟩
  · exact absurd ht.symm (Text.ne_quotedChar (by decide))
  · exact absurd ht.symm (Text.ne_quotedChar k.head?_name)
  · exact congrArg some (Text.quotedChar_injective ht.symm)

theorem describeExpected_eq_endOfInput (h : describeExpected e = "end of input".toList) :
    e = none := by
  rcases describeExpected_cases h with ⟨rfl, -⟩ | ⟨_, k, -, -, ht⟩ | ⟨d, -, ht⟩
  · rfl
  · exact absurd ht.symm k.name_ne_endOfInput
  · exact absurd ht (Text.ne_quotedChar (by decide))

theorem describeExpected_eq_alternation (h : describeExpected e = "alternation".toList) :
    e = some '|' := by
  rcases describeExpected_cases h with ⟨-, ht⟩ | ⟨c, k, rfl, hk, ht⟩ | ⟨d, -, ht⟩
  · exact absurd ht (by decide)
  · obtain rfl := Construct.name_injective (k := .alternation) ht
    exact congrArg some (Construct.openedBy?_eq_alternation hk)
  · exact absurd ht (Text.ne_quotedChar (by decide))

end Obstacle

variable {p : Text} {f : Failure} {o : Obstacle}

/-- Where something can stand behind what was read, no count was too large, and the failure is told
where the reader got to. -/
theorem position_eq_reach {v y : Text} {u : Place} (ho : whole (.start p) = .stuck o)
    (hv : (Place.start p).Reads v u) (hu : u.offset = o.reach) (hc : Completes .ready (v ++ y) []) :
    o.span.offset = o.reach := by
  have hstop : Known .ready (.start p) (.stop o.stop) := by
    rcases known_of_stuck ho (x := .stop o.stop) rfl with h | ⟨_, _, -, h⟩
    · exact h
    · cases h
  generalize hx : o.stop = x at hstop
  cases hstop with
  | stop =>
    obtain ⟨hreach, hposition, -⟩ := Stop.mk.inj hx
    exact hposition.trans hreach.symm
  | count _ _ _ _ _ hdead =>
    obtain ⟨hreach, -⟩ := Stop.mk.inj hx
    obtain ⟨w, hw, hdead⟩ := hdead
    obtain rfl : v = w := by rw [hv.eq_take, hw.eq_take, hu, hreach]
    exact absurd hc.filled_of_ready (hdead.not_completes y [])

theorem context_ne_alternation (ho : whole (.start p) = .stuck o) :
    o.context ≠ .within .alternation := by
  intro hk
  rcases known_of_stuck ho (x := .within .alternation) hk with h | ⟨_, _, -, h⟩
  · cases h with
    | within hk => exact hk rfl
  · cases h

theorem exists_parse_of_expected {c : Char} (ho : whole (.start p) = .stuck o)
    (hc : some c ∈ o.expected) :
    ∃ z nodes, parse (p.take o.span.offset ++ c :: z) = .ok nodes := by
  rcases known_of_stuck ho (x := .awaits o.reach (some c)) ⟨rfl, hc⟩ with h | ⟨_, _, -, h⟩
  · obtain ⟨c', z, u, hc', hu, h⟩ := h.exists_stands
    cases hc'
    obtain ⟨v, z, hv, hz⟩ := h.exists_admits
    obtain ⟨j, hj⟩ := exists_parse_of_admits hz
    obtain ⟨nodes, hnodes⟩ := hj _ rfl
    rw [List.append_assoc] at hnodes
    rw [position_eq_reach ho hv hu (exists_parse_iff_completes.1 ⟨nodes, hnodes⟩), ← hu,
      ← hv.eq_take]
    exact ⟨z ++ List.replicate j ')', nodes, hnodes⟩
  · cases (Report.awaits.inj h).2

theorem exists_parse_of_expected_end (ho : whole (.start p) = .stuck o)
    (hnone : none ∈ o.expected) : ∃ nodes, parse (p.take o.span.offset) = .ok nodes := by
  rcases known_of_stuck ho (x := .awaits o.reach none) ⟨rfl, hnone⟩ with h | ⟨ns, t, hns, h⟩
  · obtain ⟨_, _, _, h, -⟩ := h.exists_stands
    cases h
  · have ht : t.offset = o.reach := (Report.awaits.inj h).1.symm
    have hspelled := sound_patternWithin _ (accepts_pattern.1 hns)
    obtain ⟨v, hv⟩ := hspelled.before
    obtain ⟨nodes, hnodes, -⟩ := hspelled.parse_textIn (.refl _)
    rw [hv.textIn (.refl _)] at hnodes
    have hc : Completes .ready (v ++ []) [] := by
      rw [List.append_nil]
      exact exists_parse_iff_completes.1 ⟨nodes, hnodes⟩
    rw [position_eq_reach ho hv ht hc, ← ht, ← hv.eq_take]
    exact ⟨nodes, hnodes⟩

/-- What a failure expects is accepted at its position: behind the characters up to there a quoted
character goes on with some pattern, and so does a bar where an alternation is expected; where the
end is expected, they are a pattern themselves. -/
theorem parse_error_expected (h : parse p = .error f) :
    (∀ c, Text.quotedChar c ∈ f.expected →
        ∃ z nodes, parse (p.take f.position ++ c :: z) = .ok nodes) ∧
      ("end of input".toList ∈ f.expected → ∃ nodes, parse (p.take f.position) = .ok nodes) ∧
      ("alternation".toList ∈ f.expected →
        ∃ z nodes, parse (p.take f.position ++ '|' :: z) = .ok nodes) := by
  obtain ⟨o, ho, rfl⟩ := parse_eq_error_iff.1 h
  -- How a name is written tells which of the three kinds of names it is of.
  refine ⟨fun c hc => ?_, fun hend => ?_, fun hbar => ?_⟩
  · rcases Obstacle.of_mem_expectedNames hc with ⟨e, he, hname⟩ | hname | ⟨k, -, hname⟩
    · obtain rfl := Obstacle.describeExpected_eq_quotedChar hname
      exact exists_parse_of_expected ho he
    · exact absurd hname.symm (Text.ne_quotedChar (Construct.head?_name _))
    · exact absurd hname.symm (Text.ne_quotedChar (Construct.head?_name _))
  · rcases Obstacle.of_mem_expectedNames hend with ⟨e, he, hname⟩ | hname | ⟨k, -, hname⟩
    · obtain rfl := Obstacle.describeExpected_eq_endOfInput hname
      exact exists_parse_of_expected_end ho he
    · exact absurd hname.symm (Construct.name_ne_endOfInput _)
    · exact absurd hname.symm (Construct.name_ne_endOfInput _)
  · rcases Obstacle.of_mem_expectedNames hbar with ⟨e, he, hname⟩ | hname | ⟨k, hk, hname⟩
    · obtain rfl := Obstacle.describeExpected_eq_alternation hname
      exact exists_parse_of_expected ho he
    · exact absurd hname (by decide)
    · obtain rfl := Construct.name_injective (k := .alternation) hname
      exact absurd hk (context_ne_alternation ho)

/-- The list goes on behind its bracket, so that the group is not closed by the first bracket. -/
theorem parse_error_expected_dash_behind_list : ∃ f, parse "([a]-".toList = .error f ∧
    (∃ z nodes, parse ("([a]-".toList ++ ')' :: z) = .ok nodes) ∧
      ∃ z nodes, parse ("([a]-".toList ++ '|' :: z) = .ok nodes := by
  have h : parse "([a]-".toList = .error ⟨"unexpected end of input while parsing group".toList, 5,
      ["')'", "'?'", "alternation", "any character", "character list", "escape", "group",
        "quantifier", "verbatim"].map String.toList⟩ := by
    decide +kernel
  obtain ⟨hquoted, -, hbar⟩ := parse_error_expected h
  exact ⟨_, h, hquoted ')' (by decide +kernel), hbar (by decide +kernel)⟩

end PatternAnatomy
