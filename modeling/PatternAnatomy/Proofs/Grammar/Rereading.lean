import PatternAnatomy.Proofs.Grammar.Commitment

namespace PatternAnatomy

namespace Grammar

open Reader Node

variable {P : Reader (List Node)} {depth : Nat} {n : Node} {s t : Place}

theorem quantified_refuses (ht : t.rest.Closes) : (quantified (patternWithin depth)).Refuses t := by
  apply refuses_iff.2
  intro ns u h
  obtain ⟨n, q, a, hn, -, -⟩ := accepts_quantified.1 h
  obtain ⟨hnot, hn⟩ := spelled_of_quantifiable (sound_patternWithin depth) hn
  obtain ⟨c, hc, hopens⟩ := hn.opensAtom hnot
  exact hopens.ne (by decide) (by decide) (ht c hc)

theorem quantifier_refuses (h : ∀ c ∈ significant, c ∉ ['.', '\\', '[', '(', ')'] →
    s.rest.head? ≠ some c) : quantifier.Refuses s := by
  apply refuses_iff.2
  intro n t hn
  obtain ⟨r, v, hw, hr, -, -⟩ := accepts_quantifier.1 hn
  obtain ⟨c, hc, hsig, hno⟩ := hw.head?
  rw [← hr.head? hw.ne_nil] at hc
  apply h c hsig _ hc
  simp_all

theorem branch_refuses (h : s.rest.head? ≠ some '|') : (branch P).Refuses s := by
  apply refuses_iff.2
  intro n t hn
  obtain ⟨u, hbar, -⟩ := accepts_branch.1 hn
  exact h (by simp [hbar.rest])

theorem quantifiable_accepts (hn : (atom (patternWithin depth)).Accepts s n t)
    (ht : t.rest.head? ≠ some '|') : (quantifiable (patternWithin depth)).Accepts s n t :=
  (accepts_quantifiable (sound_patternWithin depth)).2
    ⟨n, [], t, hn, .done (branch_refuses ht), rfl⟩

end Grammar

namespace Node

open Grammar Reader

theorem accepts_of_atom {n : Node} {s t : Place} {depth : Nat}
    (h : (atom (patternWithin depth)).Accepts s n t) :
    (n.IsAtom → (atom (patternWithin depth)).Accepts s n t) ∧
      (¬ n.IsQuantifier → t.rest.head? ≠ some '|' →
        (quantifiable (patternWithin depth)).Accepts s n t) :=
  ⟨fun _ => h, fun _ => quantifiable_accepts h⟩

mutual

theorem Spelled.accepts : ∀ {n s t} depth, Spelled n s t → s.rest.length ≤ depth →
    (n.IsAtom → (atom (patternWithin depth)).Accepts s n t) ∧
      (¬ n.IsQuantifier → t.rest.head? ≠ some '|' →
        (quantifiable (patternWithin depth)).Accepts s n t)
  | _, _, _, _, .verbatim hne h hplain hend, _ =>
    accepts_of_atom (accepts_atom.2 (.inr (.inr (.inr (.inl
      (accepts_verbatim.2 ⟨_, hne, h, hplain, hend, rfl⟩))))))
  | _, _, _, _, .anyChar h, _ =>
    accepts_of_atom (accepts_atom.2 (.inl (accepts_anyCharacter.2 ⟨h, rfl⟩)))
  | _, _, _, _, .escape h, _ =>
    accepts_of_atom (accepts_atom.2 (.inr (.inl (accepts_escape.2 ⟨h, rfl⟩))))
  | _, _, _, _, .charList ha hcaret hne his hrange hb, _ =>
    accepts_of_atom (accepts_atom.2 (.inr (.inr (.inl
      (accepts_charList.2 ⟨_, _, _, _, ha, hcaret, hne, his, hrange, hb, rfl⟩)))))
  | _, _, _, _, .quantifier .., _ => ⟨fun h => h.elim, fun h => absurd trivial h⟩
  | _, _, _, 0, .group ha .., hlen => by simp [ha.rest] at hlen
  | _, _, _, depth + 1, .group ha hname hcs hb, hlen => by
    -- The bracket is one character, which pays for the level of depth.
    have hinside := ha.length
    simp only [List.length_cons] at hinside
    obtain ⟨runs, hruns, hflat⟩ := hcs.repeats depth hb.closes (by omega)
    have hpattern := (accepts_patternWithin_succ (sound_patternWithin depth)).2 ⟨runs, hruns, hflat⟩
    have hhead := hcs.head?_ne hb.closes (c := '?') (by decide) (by decide)
    exact accepts_of_atom (accepts_atom.2 (.inr (.inr (.inr (.inr
      (group_accepts ha hname hhead hpattern hb))))))
  | _, _, _, depth, .alternation hlength hbs, hlen => by
    refine ⟨fun h => h.elim, fun _ ht => ?_⟩
    obtain ⟨m, ms, u, rfl, hm, hms⟩ := hbs.repeats depth ht hlen
    have hbranches : ms ≠ [] := by
      rintro rfl
      simp at hlength
    obtain ⟨b, bs, rfl⟩ := List.exists_cons_of_ne_nil hbranches
    exact (accepts_quantifiable (sound_patternWithin depth)).2 ⟨m, b :: bs, u, hm, hms, rfl⟩

theorem SpelledAll.repeats : ∀ {ns s t} depth, SpelledAll ns s t → t.rest.Closes →
    s.rest.length ≤ depth → ∃ runs, (quantified (patternWithin depth)).Repeats s runs t ∧
      ns = runs.flatten
  | _, _, _, _, .nil, ht, _ => ⟨[], .done (quantified_refuses ht), rfl⟩
  | _, _, _, depth, .cons hn h hns, ht, hlen => by
    have hbar := hns.head?_ne ht (c := '|') (by decide) (by decide)
    have hatom := (h.accepts depth hlen).2 hn hbar
    have hno := accepts_optional.2 (.inr ⟨rfl, rfl, quantifier_refuses fun c => hns.head?_ne ht⟩)
    obtain ⟨runs, hruns, rfl⟩ := hns.repeats depth ht (Nat.le_trans h.before.length_le hlen)
    exact ⟨_, .more (accepts_quantified.2 ⟨_, none, _, hatom, hno, rfl⟩) hruns, rfl⟩
  | _, _, _, depth, .repeated hn h (.quantifier hw hr hend) hns, ht, hlen => by
    obtain ⟨c, hc, -, hno⟩ := hw.head?
    rw [← hr.head? hw.ne_nil] at hc
    have hbar : c ≠ '|' := by
      rintro rfl
      simp at hno
    have hatom := (h.accepts depth hlen).2 hn (by simpa [hc] using hbar)
    have hq := accepts_optional.2 (.inl ⟨_, rfl, accepts_quantifier.2 ⟨_, _, hw, hr, hend, rfl⟩⟩)
    have hafter := hr.length
    have hle := h.before.length_le
    obtain ⟨runs, hruns, rfl⟩ := hns.repeats depth ht (by omega)
    exact ⟨_, .more (accepts_quantified.2 ⟨_, some _, _, hatom, hq, rfl⟩) hruns, rfl⟩

theorem SpelledBarred.repeats : ∀ {bs s t} depth, SpelledBarred bs s t →
    t.rest.head? ≠ some '|' → s.rest.length ≤ depth → ∃ m ms u, bs = m :: ms ∧
      (atom (patternWithin depth)).Accepts s m u ∧
      (branch (patternWithin depth)).Repeats u ms t
  | _, _, _, depth, .last hn h, ht, hlen =>
    ⟨_, [], _, rfl, (h.accepts depth hlen).1 hn, .done (branch_refuses ht)⟩
  | _, _, _, depth, .cons hn h hbar hbs, ht, hlen => by
    have hafter := hbar.length
    have hle := h.before.length_le
    obtain ⟨m, ms, u, rfl, hm, hms⟩ := hbs.repeats depth ht (by omega)
    have hrest := Repeats.more (accepts_branch.2 ⟨_, hbar, hm⟩) hms
    exact ⟨_, _, _, rfl, (h.accepts depth hlen).1 hn, hrest⟩

end

theorem Spelled.completes_behind_atom {m : Stage} {n : Node} {s t : Place} {u : Text}
    (h : n.Spelled s t) (hn : n.IsAtom) (hc : Completes m s.rest u) : Completes .filled t.rest u :=
  completes_of_atom (lossless_patternWithin _) (Nat.le_refl _)
    ((h.accepts _ (Nat.le_refl _)).1 hn) hc

end Node

/-- The nodes that are read from a pattern are those that it spells. -/
theorem parse_eq_ok_iff_spelledAll {p : Text} {nodes : List Node} :
    parse p = .ok nodes ↔ Node.SpelledAll nodes (.start p) ⟨p.length, []⟩ := by
  constructor
  · exact spelledAll_of_parse
  · intro h
    obtain ⟨runs, hruns, rfl⟩ := h.repeats p.length (by simp [Text.Closes]) (Nat.le_refl _)
    have hpattern := (Grammar.accepts_patternWithin_succ (Grammar.sound_patternWithin _)).2
      ⟨runs, hruns, rfl⟩
    exact parse_eq_ok_iff.2 ⟨_, Reader.accepts_complete.2 ⟨Grammar.accepts_pattern.2 hpattern, rfl⟩⟩

end PatternAnatomy
