import PatternAnatomy.Proofs.Grammar.Spelling
import PatternAnatomy.Proofs.Reading.Rounds

namespace PatternAnatomy.Grammar

open Reader Node

variable {P Q : Reader (List Node)} {s t : Place} {j k : Nat}

theorem sound_pattern : Sound pattern :=
  fun _ _ _ h => sound_patternWithin _ (accepts_pattern.1 h)

theorem advances_verbatim : verbatim.Advances := by
  intro s n t h
  obtain ⟨v, hne, hv, -⟩ := accepts_verbatim.1 h
  exact ⟨v, hne, hv⟩

theorem advances_anyCharacter : anyCharacter.Advances :=
  fun _ _ _ h => ⟨['.'], List.cons_ne_nil _ _, (accepts_anyCharacter.1 h).1⟩

theorem advances_escape : escape.Advances :=
  fun _ _ _ h => ⟨['\\'], List.cons_ne_nil _ _, (accepts_escape.1 h).1⟩

theorem advances_charList : charList.Advances := by
  intro s n t h
  obtain ⟨is, negated, a, b, ha, hcaret, hne, his, hrange, hb, rfl⟩ := accepts_charList.1 h
  exact (Spelled.charList ha hcaret hne his hrange hb).reads

theorem advances_quantifier : quantifier.Advances := by
  intro s n t h
  obtain ⟨r, v, hw, hv, -⟩ := accepts_quantifier.1 h
  exact ⟨v, hw.ne_nil, hv⟩

theorem advances_group (hP : Sound P) : (group P).Advances := by
  intro s n t h
  obtain ⟨cs, nonCapturing, name, a, b, ha, hname, hcs, hb, rfl⟩ := accepts_group h
  exact (Spelled.group ha hname (hP hcs) hb).reads

theorem advances_quantifiable (hP : Sound P) : (quantifiable P).Advances :=
  fun _ _ _ h => (spelled_of_quantifiable hP h).2.reads

def AgreeBehind (P Q : Reader (List Node)) (s : Place) : Prop := ∀ t, s.Precedes t → P t = Q t

theorem AgreeBehind.before (h : AgreeBehind P Q s) (ht : s.Before t) : AgreeBehind P Q t :=
  fun u hu => h u (ht.trans_precedes hu)

theorem group_congr (h : AgreeBehind P Q s) : group P s = group Q s := by
  refine within_congr_at _ (spanned_congr_at (bind_congr_at rfl ?_))
  intro _ a ha
  refine bind_congr_at rfl fun marker b hb => bind_congr_at rfl fun name c hc => ?_
  -- The bracket stands before the pattern, whatever there is of a header.
  have hopen : s.Precedes a := ⟨['('], List.cons_ne_nil _ _, accepts_char.1 ha⟩
  have hmarker : a.Before b := by
    rcases accepts_optional.1 hb with ⟨_, -, hb⟩ | ⟨-, rfl, -⟩
    · exact (accepts_exactly.1 hb).before
    · exact .refl b
  have hname : b.Before c := by
    rcases accepts_optional.1 hc with ⟨_, -, hc⟩ | ⟨-, rfl, -⟩
    · exact (accepts_groupName.1 hc).2.before
    · exact .refl c
  exact bind_congr_at (h c (hopen.trans_before (hmarker.trans hname))) fun _ _ _ => rfl

theorem atom_congr (h : AgreeBehind P Q s) : atom P s = atom Q s := by
  have hgroup := group_congr h
  exact orElse_congr_at (orElse_congr_at (orElse_congr_at (orElse_congr_at hgroup)))

theorem branch_congr (h : AgreeBehind P Q s) : branch P s = branch Q s := by
  refine bind_congr_at rfl fun _ t ht => ?_
  exact atom_congr (h.before (accepts_char.1 ht).before)

theorem quantifiable_congr (hQ : Sound Q) (h : AgreeBehind P Q s) :
    quantifiable P s = quantifiable Q s := by
  refine spanned_congr_at (bind_congr_at (bind_congr_at (atom_congr h) ?_) fun _ _ _ => rfl)
  intro n t ht
  have hbefore := (spelled_of_atom hQ ht).2.before
  have hmany : (branch P).many t = (branch Q).many t :=
    upTo_congr_at (advances_branch hQ) fun u hu => branch_congr (h.before (hbefore.trans hu))
  exact bind_congr_at hmany fun _ _ _ => rfl

theorem quantified_congr (hQ : Sound Q) (h : AgreeBehind P Q s) :
    quantified P s = quantified Q s :=
  bind_congr_at (quantifiable_congr hQ h) fun _ _ _ => rfl

/-- The runs of a pattern in whose groups `P` reads. -/
def runs (P : Reader (List Node)) : Reader (List Node) := do
  let runs ← (quantified P).many
  return runs.flatten

theorem patternWithin_succ : patternWithin (k + 1) = runs (patternWithin k) := rfl

theorem runs_congr (hQ : Sound Q) (h : AgreeBehind P Q s) : runs P s = runs Q s := by
  have hmany : (quantified P).many s = (quantified Q).many s :=
    upTo_congr_at (advances_quantified hQ) fun t ht => quantified_congr hQ (h.before ht)
  exact bind_congr_at hmany fun _ _ _ => rfl

/-- A depth larger than the number of characters left is as good as any other. -/
theorem patternWithin_eq (hj : s.rest.length < j) (hk : s.rest.length < k) :
    patternWithin j s = patternWithin k s := by
  -- Inside a group one level less is enough, since the bracket leaves less of the text.
  induction j generalizing k s with
  | zero => omega
  | succ j ih =>
    obtain ⟨k, rfl⟩ : ∃ i, k = i + 1 := ⟨k - 1, by omega⟩
    rw [patternWithin_succ, patternWithin_succ]
    refine runs_congr (sound_patternWithin k) fun t ht => ?_
    have hlt := ht.length_lt
    exact ih (by omega) (by omega)

theorem pattern_eq_runs : pattern = runs pattern := by
  funext s
  show patternWithin (s.rest.length + 1) s = _
  rw [patternWithin_succ]
  exact runs_congr sound_pattern fun t ht => patternWithin_eq ht.length_lt (Nat.lt_succ_self _)

/-- Whatever reads runs in whose groups it reads itself reads patterns. -/
theorem eq_pattern (hP : P = runs P) (hk : s.rest.length < k) : P s = pattern s := by
  induction k generalizing s with
  | zero => omega
  | succ k ih =>
    rw [hP, pattern_eq_runs]
    refine runs_congr sound_pattern fun t ht => ih ?_
    have hlt := ht.length_lt
    omega

theorem eq_runs_iff : P = runs P ↔ P = pattern := by
  constructor
  · intro hP
    funext s
    exact eq_pattern hP (Nat.lt_succ_self _)
  · rintro rfl
    exact pattern_eq_runs

/-- A pattern is read wherever a reader begins, though it may be empty. -/
theorem exists_accepts_pattern (s : Place) : ∃ ns t, pattern.Accepts s ns t ∧ s.Before t := by
  have hsound := sound_patternWithin s.rest.length
  obtain ⟨rs, t, hrs⟩ := exists_repeats (advances_quantified hsound) s
  have h : pattern.Accepts s rs.flatten t :=
    accepts_pattern.2 ((accepts_patternWithin_succ hsound).2 ⟨rs, hrs, rfl⟩)
  exact ⟨rs.flatten, t, h, (sound_pattern h).before⟩

theorem parse_eq_ok_iff_accepts {p : Text} {nodes : List Node} :
    parse p = .ok nodes ↔ ∃ t, pattern.Accepts (.start p) nodes t ∧ t.rest = [] := by
  rw [parse_eq_ok_iff]
  exact exists_congr fun t => accepts_complete

/-- Every rule that accepts takes up some of the text, and none of what is not there; every
repetition comes to an end by itself; a group reads the pattern inside only behind its own
beginning. There is one reader of patterns therefore, it reads a pattern everywhere, and a text has
a tree or a failure by whether that pattern is all of it. -/
theorem rules_advance :
    (verbatim.Advances ∧ anyCharacter.Advances ∧ escape.Advances ∧ item.Advances ∧
      charList.Advances ∧ quantifier.Advances ∧ (group pattern).Advances ∧
      (quantifiable pattern).Advances ∧ (quantified pattern).Advances) ∧
    ((charOutside significant).Repeatable ∧ (charExcept '>').Repeatable ∧
      (satisfying Char.isDigit).Repeatable ∧ item.Repeatable ∧ (branch pattern).Repeatable ∧
      (quantified pattern).Repeatable) ∧
    (∀ P Q s, (∀ t v, v ≠ [] → s.Reads v t → P t = Q t) → group P s = group Q s) ∧
    (∀ P, P = runs P ↔ P = pattern) ∧
    (∀ s, ∃ ns t, pattern.Accepts s ns t ∧ s.Before t) ∧
    ∀ p, (∃ nodes t, parse p = .ok nodes ∧ pattern.Accepts (.start p) nodes t ∧ t.rest = []) ∨
      ∃ f, parse p = .error f ∧ ∀ nodes t, pattern.Accepts (.start p) nodes t → t.rest ≠ [] := by
  have hrules := And.intro (advances_group sound_pattern)
    (And.intro (advances_quantifiable sound_pattern) (advances_quantified sound_pattern))
  refine ⟨⟨advances_verbatim, advances_anyCharacter, advances_escape, advances_item,
    advances_charList, advances_quantifier, hrules⟩, ?_, ?_, fun P => eq_runs_iff,
    exists_accepts_pattern, ?_⟩
  · exact ⟨(advances_satisfying _).repeatable, (advances_satisfying _).repeatable,
      (advances_satisfying _).repeatable, advances_item.repeatable,
      (advances_branch sound_pattern).repeatable, (advances_quantified sound_pattern).repeatable⟩
  · exact fun P Q s h => group_congr fun t ⟨v, hne, hv⟩ => h t v hne hv
  · intro p
    cases h : parse p with
    | ok nodes =>
      obtain ⟨t, ht⟩ := parse_eq_ok_iff_accepts.1 h
      exact .inl ⟨nodes, t, rfl, ht⟩
    | error f =>
      refine .inr ⟨f, rfl, fun nodes t hnodes ht => ?_⟩
      rw [parse_eq_ok_iff_accepts.2 ⟨t, hnodes, ht⟩] at h
      cases h

/-- A group is read by a reader that reads no pattern at the beginning of the text. -/
theorem rules_advance_refusing_at_start : ∃ Q : Reader (List Node),
    Q.Refuses (.start "(a)".toList) ∧ (∀ t v, v ≠ [] → Place.Reads (.start "(a)".toList) v t →
      pattern t = Q t) ∧
    group pattern (.start "(a)".toList) = group Q (.start "(a)".toList) := by
  obtain ⟨Q, hQ⟩ : ∃ Q : Reader (List Node),
    Q = fun t => if t.offset = 0 then .stuck (t.obstacle []) else pattern t := ⟨_, rfl⟩
  have hbehind : ∀ t v, v ≠ [] → Place.Reads (.start "(a)".toList) v t → pattern t = Q t := by
    intro t v hne hv
    have hpos : t.offset ≠ 0 := by
      have ho : t.offset = 0 + v.length := hv.offset
      have hlen := List.length_pos_iff.2 hne
      omega
    rw [hQ]
    exact (if_neg hpos).symm
  exact ⟨Q, ⟨_, congrFun hQ _⟩, hbehind, rules_advance.2.2.1 pattern Q _ hbehind⟩

end PatternAnatomy.Grammar
