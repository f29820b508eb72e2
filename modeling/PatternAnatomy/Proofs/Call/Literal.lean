import PatternAnatomy.Proofs.Call.Occurrence

namespace PatternAnatomy.Call

variable {s t u v w rest : Text} {c : Call} {i k : Nat}

/-- The literal that has been opened in front of `s` has the body `w`, and `u` follows its closing
quote. -/
structure Ends (s w u : Text) : Prop where
  text : s = w ++ '"' :: u
  body : IsVerbatimBody w
  alone : u.head? ≠ some '"'

theorem verbatimBody_of_ends (h : Ends s w u) (hu : ')' ∈ u) :
    verbatimBody s = some (w, '"' :: u) := by
  obtain ⟨rfl, hw, halone⟩ := h
  induction hw with
  | nil =>
    rw [List.nil_append, verbatimBody, if_pos rfl, if_pos hu]
    rintro r - rfl
    exact halone rfl
  | quotes _ ih => rw [List.cons_append, List.cons_append, verbatimBody, ih]
  | @char c b hc _ ih =>
    rw [List.cons_append, verbatimBody, if_neg hc, ih]
    · rfl
    · rintro r rfl -
      exact hc rfl

/-- A body that is found goes as far as the literal does unless another quote follows. -/
theorem ends_of_verbatimBody (h : verbatimBody s = some (w, '"' :: u)) (hu : u.head? ≠ some '"') :
    Ends s w u ∧ ')' ∈ u := by
  obtain ⟨hbody, _, heq, hparen⟩ := isVerbatimBody_of_verbatimBody h
  obtain rfl := (List.cons.inj heq).2
  exact ⟨⟨splits_verbatimBody _ _ _ h, hbody, hu⟩, hparen⟩

/-- What was read of a call with a verbatim literal: its body, and the closing quote with `u` behind
it. -/
theorem exists_verbatimBody_of_read? (h : read? s = some (c, rest)) (hc : c.form = .verbatim) :
    ∃ u, verbatimBody (c.body ++ '"' :: u) = some (c.body, '"' :: u) ∧
      s = c.lead ++ (c.body ++ '"' :: u) := by
  simp only [read?, Option.bind_eq_bind, Option.bind_eq_some_iff, Prod.exists] at h
  obtain ⟨lead, t, hheader, h⟩ := h
  have hs := splits_header _ _ _ hheader
  split at h
  · next r =>
    obtain ⟨t, hbody, -, -, hlead⟩ := finish_eq_some_iff.1 h
    obtain ⟨-, u, rfl, -⟩ := isVerbatimBody_of_verbatimBody hbody
    have hr := splits_verbatimBody _ _ _ hbody
    refine ⟨u, hr ▸ hbody, ?_⟩
    rw [hs, hlead, ← hr, List.append_assoc]
    rfl
  · obtain ⟨_, _, _, hform, _⟩ := finish_eq_some_iff.1 h
    rw [hc] at hform
    cases hform
  · cases h

theorem exists_read?_of_mem_allFrom (h : (i, c) ∈ allFrom k s) :
    ∃ u v rest, s = u ++ v ∧ i = k + u.length ∧ read? v = some (c, rest) := by
  fun_induction allFrom k s with
  | case1 k s d rest hd ih =>
    rcases List.mem_cons.1 h with heq | h
    · obtain ⟨rfl, rfl⟩ := Prod.mk.inj heq
      exact ⟨[], s, rest, rfl, rfl, hd⟩
    · obtain ⟨u, v, rest', rfl, rfl, hread⟩ := ih h
      refine ⟨d.text ++ u, v, rest', ?_, ?_, hread⟩
      · rw [append_of_read? hd, List.append_assoc]
      · rw [List.length_append, Nat.add_assoc]
  | case2 => cases h
  | case3 k d s hd ih =>
    obtain ⟨u, v, rest, rfl, rfl, hread⟩ := ih h
    refine ⟨d :: u, v, rest, rfl, ?_, hread⟩
    rw [List.length_cons]
    omega

theorem exists_verbatimBody_of_mem_allFrom (h : (i, c) ∈ allFrom 0 t) (hc : c.form = .verbatim) :
    ∃ u, t.drop (i + c.lead.length) = c.body ++ '"' :: u ∧
      verbatimBody (c.body ++ '"' :: u) = some (c.body, '"' :: u) := by
  obtain ⟨v, s, rest, rfl, rfl, hread⟩ := exists_read?_of_mem_allFrom h
  obtain ⟨u, hbody, rfl⟩ := exists_verbatimBody_of_read? hread hc
  refine ⟨u, ?_, hbody⟩
  rw [Nat.zero_add, ← List.drop_drop, List.drop_left, List.drop_left]

/-- No quote follows the one that ends the pattern of a call with a verbatim literal, exactly when
the literal ends in the line and a parenthesis closes behind it; and then the pattern is the whole
literal. -/
theorem literal_whole_iff (h : (i, c) ∈ allFrom 0 t) (hc : c.form = .verbatim) :
    (t[i + c.lead.length + c.body.length + 1]? ≠ some '"' ↔
      ∃ w u, Ends (t.drop (i + c.lead.length)) w u ∧ ')' ∈ u) ∧
    ∀ w u, Ends (t.drop (i + c.lead.length)) w u → ')' ∈ u → c.body = w := by
  obtain ⟨u, hdrop, hbody⟩ := exists_verbatimBody_of_mem_allFrom h hc
  have hbehind : t[i + c.lead.length + c.body.length + 1]? = u.head? := by
    rw [Nat.add_assoc, ← List.getElem?_drop, hdrop, List.getElem?_append_right (Nat.le_succ _),
      Nat.succ_sub (Nat.le_refl _), Nat.sub_self, List.getElem?_cons_succ, List.head?_eq_getElem?]
  -- Where the literal ends in front of a parenthesis, the body that is found ends there, too.
  have hends : ∀ {w v}, Ends (c.body ++ '"' :: u) w v → ')' ∈ v → c.body = w ∧ u = v := by
    intro w v hw hv
    rw [verbatimBody_of_ends hw hv, Option.some.injEq, Prod.mk.injEq, List.cons.injEq] at hbody
    exact ⟨hbody.1.symm, hbody.2.2.symm⟩
  rw [hbehind, hdrop]
  refine ⟨⟨fun halone => ?_, ?_⟩, fun w v hw hv => (hends hw hv).1⟩
  · exact ⟨_, _, ends_of_verbatimBody hbody halone⟩
  · rintro ⟨w, v, hw, hv⟩
    rw [(hends hw hv).2]
    exact hw.alone

theorem literal_whole_with_doubled_quote :
    ∃ t i c, (i, c) ∈ allFrom 0 t ∧ c.form = .verbatim ∧ c.body = "a\"\"b".toList ∧
      (t[i + c.lead.length + c.body.length + 1]? ≠ some '"' ↔
        ∃ w u, Ends (t.drop (i + c.lead.length)) w u ∧ ')' ∈ u) ∧
      ∀ w u, Ends (t.drop (i + c.lead.length)) w u → ')' ∈ u → c.body = w := by
  have hmem : (4, (⟨.verbatim, "new Regex(@\"".toList, "a\"\"b".toList, "\", x)".toList⟩ : Call)) ∈
      allFrom 0 "r = new Regex(@\"a\"\"b\", x)".toList := by
    decide +kernel
  exact ⟨_, _, _, hmem, rfl, rfl, literal_whole_iff hmem rfl⟩

/-- The quote that ends a pattern can be the first of two. -/
theorem not_forall_literal_whole : ¬ ∀ (t : Text) (i : Nat) (c : Call), (i, c) ∈ allFrom 0 t →
    c.form = .verbatim → t[i + c.lead.length + c.body.length + 1]? ≠ some '"' := by
  intro h
  have hmem : (0, (⟨.verbatim, "new Regex(@\"".toList, ['a'], "\"\")".toList⟩ : Call)) ∈
      allFrom 0 "new Regex(@\"a\"\")".toList := by
    decide +kernel
  exact h _ _ _ hmem rfl (by decide +kernel)

end PatternAnatomy.Call
