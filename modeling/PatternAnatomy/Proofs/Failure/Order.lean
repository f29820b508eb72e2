import PatternAnatomy.Proofs.Failure.Expectation
import PatternAnatomy.Proofs.Grammar.Openings

namespace PatternAnatomy

open Grammar

theorem Text.pairwise_insertOrdered {t : Text} {ts : List Text} (h : ts.Pairwise (· < ·)) :
    (insertOrdered t ts).Pairwise (· < ·) := by
  induction ts with
  | nil => exact List.pairwise_singleton _ t
  | cons u us ih =>
    obtain ⟨hu, hus⟩ := List.pairwise_cons.1 h
    unfold insertOrdered
    split
    next htu =>
      refine List.pairwise_cons.2 ⟨fun v hv => ?_, h⟩
      rcases List.mem_cons.1 hv with rfl | hv
      · exact htu
      · exact List.lt_trans htu (hu v hv)
    next htu =>
      split
      next => exact h
      next hne =>
        refine List.pairwise_cons.2 ⟨fun v hv => ?_, ih hus⟩
        rcases mem_insertOrdered.1 hv with rfl | hv
        · exact (List.le_iff_lt_or_eq.1 htu).resolve_right (Ne.symm hne)
        · exact hu v hv

theorem Text.pairwise_ordered (ts : List Text) : (ordered ts).Pairwise (· < ·) := by
  induction ts with
  | nil => exact .nil
  | cons t ts ih => exact pairwise_insertOrdered ih

/-- A quote comes before every letter that a name begins with. -/
theorem Construct.quotedChar_lt_name (c : Char) (k : Construct) : Text.quotedChar c < k.name := by
  have hletter : ∃ x t, k.name = x :: t ∧ '\'' < x := by
    cases k <;> exact ⟨_, _, rfl, by decide⟩
  obtain ⟨x, t, hname, hx⟩ := hletter
  rw [hname]
  exact List.cons_lt_cons_iff.2 (.inl hx)

namespace Obstacle

variable {o : Obstacle} {t : Text}

theorem Plain.describeExpected (h : o.Plain) {e : Option Char} (he : e ∈ o.expected) :
    ∃ c, describeExpected e = Text.quotedChar c := by
  obtain ⟨c, rfl, hc⟩ := h e he
  exact ⟨c, by rw [Obstacle.describeExpected, hc]; rfl⟩

theorem Plain.not_mem_atomNames (h : o.Plain) {e : Option Char} (he : e ∈ o.expected) :
    Obstacle.describeExpected e ∉ atomNames := by
  obtain ⟨c, hc⟩ := h.describeExpected he
  rw [hc]
  intro hmem
  obtain ⟨k, -, hk⟩ := List.mem_map.1 hmem
  exact Text.ne_quotedChar k.head?_name hk

theorem Settled.pairwise_expectedNames (h : o.Settled) : o.expectedNames.Pairwise (· < ·) := by
  unfold expectedNames
  extract_lets named atoms names
  have hnames : names.Pairwise (· < ·) := Text.pairwise_ordered _
  split
  next k hk =>
    have hcontext := Context.construct?_eq_some hk
    split
    next => exact hnames
    next hno =>
      refine List.pairwise_append.2 ⟨hnames, List.pairwise_singleton _ _, fun t ht u hu => ?_⟩
      obtain rfl := List.mem_singleton.1 hu
      rcases h with h | ⟨hgroup, hseveral | hwithin⟩
      · -- Everything else that is expected is quoted, and so comes before the construct.
        have hatoms : atoms = [] := by
          refine if_neg fun hany => ?_
          obtain ⟨u, hu, hatom⟩ := List.any_eq_true.1 hany
          obtain ⟨e, he, rfl⟩ := List.mem_map.1 hu
          exact h.not_mem_atomNames he (of_decide_eq_true hatom)
        have ht : t ∈ named ++ atoms := Text.mem_ordered.1 ht
        rw [hatoms, List.append_nil] at ht
        obtain ⟨e, he, rfl⟩ := List.mem_map.1 ht
        obtain ⟨c, hc⟩ := h.describeExpected he
        exact hc ▸ Construct.quotedChar_lt_name c k
      · rw [hcontext] at hseveral
        cases hseveral
      · -- The bracket that opens a group has named the group already.
        obtain rfl := Context.within.inj (hcontext.symm.trans hwithin)
        have hnamed : Construct.group.name ∈ named := List.mem_map.2 ⟨_, hgroup, rfl⟩
        exact absurd (Text.mem_ordered.2 (List.mem_append_left _ hnamed)) hno
  next => exact hnames

end Obstacle

variable {p : Text} {f : Failure}

/-- What a failure expects is in strictly increasing order, with the construct that was being read
among it. -/
theorem parse_error_expected_increasing (h : parse p = .error f) :
    f.expected.Pairwise (· < ·) := by
  obtain ⟨o, ho, rfl⟩ := parse_eq_error_iff.1 h
  exact (settled_of_stuck ho).pairwise_expectedNames

theorem parse_error_expected_increasing_header : ∃ f, parse "a(?".toList = .error f ∧
    f.expected = ["':'", "'<'", "group name"].map String.toList ∧
      f.expected.Pairwise (· < ·) := by
  have h : parse "a(?".toList = .error
      ⟨"unexpected end of input while parsing group name".toList, 3,
        ["':'", "'<'", "group name"].map String.toList⟩ := by
    decide +kernel
  exact ⟨_, h, rfl, parse_error_expected_increasing h⟩

end PatternAnatomy
