import PatternAnatomy.Failure
import PatternAnatomy.Proofs.Grammar.CharList
import PatternAnatomy.Proofs.Grammar.Group
import PatternAnatomy.Proofs.Grammar.Repetition

namespace PatternAnatomy

open Grammar

/-- Whether a text is at its end, or a bracket that was opened before closes. -/
def Text.Closes (t : Text) : Prop := ∀ c, t.head? = some c → c = ')'

theorem Text.Closes.head?_ne {t : Text} {c : Char} (h : t.Closes) (hc : c ≠ ')') :
    t.head? ≠ some c :=
  fun hs => hc (h c hs)

theorem Text.closes_replicate {t : Text} (j : Nat) (h : t.Closes) :
    Closes (List.replicate j ')' ++ t) := by
  cases j with
  | zero => exact h
  | succ j =>
    intro c hc
    exact (Option.some.inj hc).symm

theorem Place.Reads.closes {s t : Place} (h : s.Reads [')'] t) : s.rest.Closes := by
  intro c hc
  simpa [h.rest, eq_comm] using hc

namespace Grammar

/-- The characters that an atom may begin with. -/
def OpensAtom (c : Char) : Prop := c ∈ ['.', '\\', '[', '('] ∨ c ∉ significant

theorem OpensAtom.ne {c d : Char} (hc : OpensAtom c) (hd : d ∈ significant)
    (hno : d ∉ ['.', '\\', '[', '(']) : c ≠ d := by
  rintro rfl
  exact hc.elim hno (absurd hd)

end Grammar

namespace Node

/-- Alternatives are never alternations themselves. -/
def IsAtom : Node → Prop
  | quantifier .. | alternation .. => False
  | _ => True

def IsQuantifier : Node → Prop
  | quantifier .. => True
  | _ => False

theorem IsAtom.not_isQuantifier {n : Node} (h : n.IsAtom) : ¬ n.IsQuantifier := by
  cases n <;> simp_all [IsAtom, IsQuantifier]

mutual

/-- The node is spelled by the characters between two places, and its span is theirs. -/
inductive Spelled : Node → Place → Place → Prop where
  | verbatim (hne : v ≠ []) (h : s.Reads v t) (hplain : ∀ c ∈ v, c ∉ significant)
      (hend : ∀ c, t.rest.head? = some c → c ∈ significant) :
    Spelled (.verbatim v (.between s.offset t.offset)) s t
  | anyChar (h : s.Reads ['.'] t) : Spelled (.special .anyChar (.between s.offset t.offset)) s t
  | escape (h : s.Reads ['\\'] t) : Spelled (.special .escape (.between s.offset t.offset)) s t
  | charList (ha : s.Reads (opening negated) a)
      (hcaret : negated = false → a.rest.head? ≠ some '^') (hne : is ≠ [])
      (his : Item.SpelledAll is a b) (hrange : ¬ b.rest.OpensRange) (hb : b.Reads [']'] t) :
    Spelled (.charList is negated (.between s.offset t.offset)) s t
  | quantifier (hw : Repetition.Written r v) (h : s.Reads v t)
      (hend : ¬ Repetition.Continues v t.rest) :
    Spelled (.quantifier r (.between s.offset t.offset)) s t
  | group (ha : s.Reads ('(' :: groupHeader nonCapturing name) a) (hname : ∀ w ∈ name, IsName w)
      (hcs : SpelledAll cs a b) (hb : b.Reads [')'] t) :
    Spelled (.group cs nonCapturing name (.between s.offset t.offset)) s t
  | alternation (hlen : 2 ≤ bs.length) (hbs : SpelledBarred bs s t) :
    Spelled (.alternation bs (.between s.offset t.offset)) s t

/-- The nodes of a pattern one behind the other, each with or without a quantifier. -/
inductive SpelledAll : List Node → Place → Place → Prop where
  | nil : SpelledAll [] s s
  | cons (hn : ¬ n.IsQuantifier) (h : Spelled n s t) (hns : SpelledAll ns t u) :
    SpelledAll (n :: ns) s u
  | repeated (hn : ¬ n.IsQuantifier) (h : Spelled n s t) (hq : Spelled (.quantifier r sp) t u)
      (hns : SpelledAll ns u v) :
    SpelledAll (n :: .quantifier r sp :: ns) s v

inductive SpelledBarred : List Node → Place → Place → Prop where
  | last (hn : n.IsAtom) (h : Spelled n s t) : SpelledBarred [n] s t
  | cons (hn : n.IsAtom) (h : Spelled n s t) (hbar : t.Reads ['|'] u)
      (hbs : SpelledBarred bs u v) :
    SpelledBarred (n :: bs) s v

end

mutual

theorem Spelled.reads : ∀ {n s t}, Spelled n s t → ∃ v, v ≠ [] ∧ s.Reads v t
  | _, _, _, .verbatim hne h _ _ => ⟨_, hne, h⟩
  | _, _, _, .anyChar h | _, _, _, .escape h => ⟨_, by simp, h⟩
  | _, _, _, .charList ha _ _ his _ hb => by
    obtain ⟨v, hv⟩ := his.before
    exact ⟨_, by simp, ha.trans (hv.trans hb)⟩
  | _, _, _, .quantifier hw h _ => ⟨_, hw.ne_nil, h⟩
  | _, _, _, .group ha _ hcs hb => by
    obtain ⟨v, hv⟩ := hcs.before
    exact ⟨_, by simp, ha.trans (hv.trans hb)⟩
  | _, _, _, .alternation _ hbs => hbs.reads

theorem SpelledAll.before : ∀ {ns s t}, SpelledAll ns s t → s.Before t
  | _, _, _, .nil => .refl _
  | _, _, _, .cons _ h hns => by
    obtain ⟨v, -, hv⟩ := h.reads
    exact hv.before.trans hns.before
  | _, _, _, .repeated _ h hq hns => by
    obtain ⟨v, -, hv⟩ := h.reads
    obtain ⟨q, -, hq⟩ := hq.reads
    exact hv.before.trans (hq.before.trans hns.before)

theorem SpelledBarred.reads : ∀ {bs s t}, SpelledBarred bs s t → ∃ v, v ≠ [] ∧ s.Reads v t
  | _, _, _, .last _ h => h.reads
  | _, _, _, .cons _ h hbar hbs => by
    obtain ⟨v, hne, hv⟩ := h.reads
    obtain ⟨w, -, hw⟩ := hbs.reads
    exact ⟨_, by simp [hne], hv.trans (hbar.trans hw)⟩

end

theorem Spelled.before {n : Node} {s t : Place} (h : n.Spelled s t) : s.Before t := by
  obtain ⟨v, -, hv⟩ := h.reads
  exact hv.before

theorem SpelledBarred.before {bs : List Node} {s t : Place} (h : SpelledBarred bs s t) :
    s.Before t := by
  obtain ⟨v, -, hv⟩ := h.reads
  exact hv.before

theorem Spelled.opensAtom_of_isAtom {n : Node} {s t : Place} (h : n.Spelled s t) (hn : n.IsAtom) :
    ∃ c, s.rest.head? = some c ∧ OpensAtom c := by
  cases h with
  | verbatim hne h hplain =>
    obtain ⟨c, w, rfl⟩ := List.exists_cons_of_ne_nil hne
    exact ⟨c, by simp [h.rest], .inr (hplain c (by simp))⟩
  | anyChar h => exact ⟨'.', by simp [h.rest], .inl (by simp)⟩
  | escape h => exact ⟨'\\', by simp [h.rest], .inl (by simp)⟩
  | charList ha => exact ⟨'[', by rw [ha.rest]; unfold opening; split <;> rfl, .inl (by simp)⟩
  | group ha => exact ⟨'(', by simp [ha.rest], .inl (by simp)⟩
  | quantifier => exact hn.elim
  | alternation => exact hn.elim

theorem Spelled.opensAtom {n : Node} {s t : Place} (h : n.Spelled s t) (hn : ¬ n.IsQuantifier) :
    ∃ c, s.rest.head? = some c ∧ OpensAtom c := by
  cases n with
  | quantifier => exact absurd trivial hn
  | alternation bs sp =>
    cases h with
    | alternation _ hbs =>
      cases hbs with
      | last hm h | cons hm h => exact h.opensAtom_of_isAtom hm
  | _ => exact h.opensAtom_of_isAtom trivial

/-- A pattern goes on with an atom or is at its end. -/
theorem SpelledAll.head?_ne {ns : List Node} {s t : Place} {c : Char} (h : SpelledAll ns s t)
    (ht : t.rest.Closes) (hc : c ∈ significant) (hno : c ∉ ['.', '\\', '[', '(', ')']) :
    s.rest.head? ≠ some c := by
  have hopens : ∀ {n v}, Spelled n s v → ¬ n.IsQuantifier → s.rest.head? ≠ some c := by
    intro n v h hn hs
    obtain ⟨d, hd, hopens⟩ := h.opensAtom hn
    rw [hs, Option.some.injEq] at hd
    apply hopens.ne hc _ hd.symm
    simp_all
  cases h with
  | nil =>
    intro hs
    have hclose := ht c hs
    simp_all
  | cons hn h | repeated hn h => exact hopens h hn

theorem Spelled.span_eq {n : Node} {s t : Place} (h : n.Spelled s t) :
    n.span = .between s.offset t.offset := by
  cases h <;> rfl

theorem Spelled.stop_span {n : Node} {s t : Place} (h : n.Spelled s t) :
    n.span.stop = t.offset := by
  obtain ⟨v, -, hv⟩ := h.reads
  rw [h.span_eq, hv.stop_span]

theorem Spelled.offset_span {n : Node} {s t : Place} (h : n.Spelled s t) :
    n.span.offset = s.offset := by
  rw [h.span_eq]
  rfl

/-- Induction along the nodes of a pattern, where nothing depends on which are quantifiers. -/
theorem SpelledAll.consInduction {motive : List Node → Place → Place → Prop}
    (nil : ∀ s, motive [] s s)
    (cons : ∀ {n ns s t u}, Spelled n s t → motive ns t u → motive (n :: ns) s u) :
    ∀ {ns s t}, SpelledAll ns s t → motive ns s t
  | _, _, _, .nil => nil _
  | _, _, _, .cons _ h hns => cons h (hns.consInduction nil cons)
  | _, _, _, .repeated _ h hq hns => cons h (cons hq (hns.consInduction nil cons))

theorem SpelledBarred.consInduction {motive : List Node → Place → Place → Prop}
    (last : ∀ {n s t}, Spelled n s t → motive [n] s t)
    (cons : ∀ {n b bs s t u v}, Spelled n s t → t.Reads ['|'] u → b.span.offset = u.offset →
      motive (b :: bs) u v → motive (n :: b :: bs) s v) :
    ∀ {bs s t}, SpelledBarred bs s t → motive bs s t
  | _, _, _, .last _ h => last h
  | _, _, _, .cons _ h hbar hbs => by
    have hrest := SpelledBarred.consInduction last cons hbs
    cases hbs with
    | last _ hb | cons _ hb => exact cons h hbar hb.offset_span hrest

theorem SpelledAll.append {ms : List Node} {u : Place} :
    ∀ {ns s t}, SpelledAll ns s t → SpelledAll ms t u → SpelledAll (ns ++ ms) s u
  | _, _, _, .nil, hms => hms
  | _, _, _, .cons hn h hns, hms => .cons hn h (hns.append hms)
  | _, _, _, .repeated hn h hq hns, hms => .repeated hn h hq (hns.append hms)

end Node

namespace Grammar

open Reader Node

variable {P : Reader (List Node)} {n : Node} {ns : List Node} {s t : Place}

theorem accepts_verbatim : verbatim.Accepts s n t ↔ ∃ v, v ≠ [] ∧ s.Reads v t ∧
    (∀ c ∈ v, c ∉ significant) ∧ (∀ c, t.rest.head? = some c → c ∈ significant) ∧
      n = .verbatim v (.between s.offset t.offset) := by
  simp only [verbatim, charOutside, accepts_within, accepts_spanned, accepts_bind,
    accepts_many1_satisfying, accepts_pure, decide_eq_true_eq, decide_eq_false_iff_not, not_not]
  constructor
  · rintro ⟨_, ⟨v, u, ⟨hne, h, hv, hend⟩, rfl, rfl⟩, rfl⟩
    exact ⟨v, hne, h, hv, hend, rfl⟩
  · rintro ⟨v, hne, h, hv, hend, rfl⟩
    exact ⟨_, ⟨v, t, ⟨hne, h, hv, hend⟩, rfl, rfl⟩, rfl⟩

theorem accepts_anyCharacter : anyCharacter.Accepts s n t ↔
    s.Reads ['.'] t ∧ n = .special .anyChar (.between s.offset t.offset) := by
  simp only [anyCharacter, accepts_within, accepts_spanned, accepts_bind, accepts_char,
    accepts_pure]
  constructor
  · rintro ⟨_, ⟨_, u, h, rfl, rfl⟩, rfl⟩
    exact ⟨h, rfl⟩
  · rintro ⟨h, rfl⟩
    exact ⟨_, ⟨(), t, h, rfl, rfl⟩, rfl⟩

theorem accepts_escape : escape.Accepts s n t ↔
    s.Reads ['\\'] t ∧ n = .special .escape (.between s.offset t.offset) := by
  simp only [escape, accepts_within, accepts_spanned, accepts_bind, accepts_char, accepts_pure]
  constructor
  · rintro ⟨_, ⟨_, u, h, rfl, rfl⟩, rfl⟩
    exact ⟨h, rfl⟩
  · rintro ⟨h, rfl⟩
    exact ⟨_, ⟨(), t, h, rfl, rfl⟩, rfl⟩

theorem head?_of_anyCharacter (h : anyCharacter.Accepts s n t) : s.rest.head? = some '.' := by
  rw [(accepts_anyCharacter.1 h).1.rest]
  rfl

theorem head?_of_escape (h : escape.Accepts s n t) : s.rest.head? = some '\\' := by
  rw [(accepts_escape.1 h).1.rest]
  rfl

theorem head?_of_charList (h : charList.Accepts s n t) : s.rest.head? = some '[' := by
  obtain ⟨_, negated, _, _, ha, -⟩ := accepts_charList.1 h
  rw [ha.rest]
  cases negated <;> rfl

theorem head?_of_verbatim {c : Char} (h : verbatim.Accepts s n t) (hc : c ∈ significant) :
    s.rest.head? ≠ some c := by
  intro hs
  obtain ⟨v, hne, hr, hplain, -⟩ := accepts_verbatim.1 h
  rw [hr.head? hne] at hs
  exact hplain c (List.mem_of_head? hs) hc

theorem head?_of_group (h : (group P).Accepts s n t) : s.rest.head? = some '(' := by
  obtain ⟨_, _, _, _, _, ha, -⟩ := accepts_group h
  rw [ha.rest]
  rfl

/-- The atoms begin with different characters, so that their order does not matter. -/
theorem accepts_atom : (atom P).Accepts s n t ↔ anyCharacter.Accepts s n t ∨ escape.Accepts s n t ∨
    charList.Accepts s n t ∨ verbatim.Accepts s n t ∨ (group P).Accepts s n t := by
  have hlast : ∀ {m u}, (verbatim <|> group P).Accepts s m u ↔
      verbatim.Accepts s m u ∨ (group P).Accepts s m u :=
    accepts_orElse_of_disjoint fun h h' => head?_of_verbatim h (by decide) (head?_of_group h')
  have hlater : ∀ {m u}, (charList <|> verbatim <|> group P).Accepts s m u ↔
      charList.Accepts s m u ∨ verbatim.Accepts s m u ∨ (group P).Accepts s m u := by
    intro m u
    rw [accepts_orElse_of_disjoint, hlast]
    intro b c v w h h'
    rcases hlast.1 h' with h' | h'
    · exact head?_of_verbatim h' (by decide) (head?_of_charList h)
    · simpa [head?_of_charList h] using head?_of_group h'
  have hnext : ∀ {m u}, (escape <|> charList <|> verbatim <|> group P).Accepts s m u ↔
      escape.Accepts s m u ∨ charList.Accepts s m u ∨ verbatim.Accepts s m u ∨
        (group P).Accepts s m u := by
    intro m u
    rw [accepts_orElse_of_disjoint, hlater]
    intro b c v w h h'
    rcases hlater.1 h' with h' | h' | h'
    · simpa [head?_of_escape h] using head?_of_charList h'
    · exact head?_of_verbatim h' (by decide) (head?_of_escape h)
    · simpa [head?_of_escape h] using head?_of_group h'
  rw [atom, accepts_orElse_of_disjoint, hnext]
  intro b c v w h h'
  rcases hnext.1 h' with h' | h' | h' | h'
  · simpa [head?_of_anyCharacter h] using head?_of_escape h'
  · simpa [head?_of_anyCharacter h] using head?_of_charList h'
  · exact head?_of_verbatim h' (by decide) (head?_of_anyCharacter h)
  · simpa [head?_of_anyCharacter h] using head?_of_group h'

/-- Whatever a reader of patterns accepts is spelled by the text. -/
def Sound (P : Reader (List Node)) : Prop := ∀ ⦃s ns t⦄, P.Accepts s ns t → SpelledAll ns s t

theorem spelled_of_atom (hP : Sound P) (h : (atom P).Accepts s n t) : n.IsAtom ∧ n.Spelled s t := by
  rcases accepts_atom.1 h with h | h | h | h | h
  · obtain ⟨hr, rfl⟩ := accepts_anyCharacter.1 h
    exact ⟨trivial, .anyChar hr⟩
  · obtain ⟨hr, rfl⟩ := accepts_escape.1 h
    exact ⟨trivial, .escape hr⟩
  · obtain ⟨is, negated, a, b, ha, hcaret, hne, his, hrange, hb, rfl⟩ := accepts_charList.1 h
    exact ⟨trivial, .charList ha hcaret hne his hrange hb⟩
  · obtain ⟨v, hne, hr, hv, hend, rfl⟩ := accepts_verbatim.1 h
    exact ⟨trivial, .verbatim hne hr hv hend⟩
  · obtain ⟨cs, nonCapturing, name, a, b, ha, hname, hcs, hb, rfl⟩ := accepts_group h
    exact ⟨trivial, .group ha hname (hP hcs) hb⟩

theorem advances_atom (hP : Sound P) : (atom P).Advances :=
  fun _ _ _ h => (spelled_of_atom hP h).2.reads

def branch (P : Reader (List Node)) : Reader Node := (char '|').andThen fun _ => atom P

theorem accepts_branch : (branch P).Accepts s n t ↔
    ∃ u, s.Reads ['|'] u ∧ (atom P).Accepts u n t := by
  rw [branch, accepts_andThen]
  simp only [accepts_char]
  exact ⟨fun ⟨_, u, h⟩ => ⟨u, h⟩, fun ⟨u, h⟩ => ⟨(), u, h⟩⟩

theorem advances_branch (hP : Sound P) : (branch P).Advances := by
  intro s n t h
  obtain ⟨u, hbar, h⟩ := accepts_branch.1 h
  obtain ⟨v, -, hv⟩ := advances_atom hP h
  exact ⟨_, by simp, hbar.trans hv⟩

theorem spelledBarred_of_repeats {u : Place} (hP : Sound P) (hn : n.IsAtom) (h : n.Spelled s t)
    (hns : (branch P).Repeats t ns u) : SpelledBarred (n :: ns) s u := by
  induction hns generalizing n s with
  | done _ => exact .last hn h
  | more hb _ ih =>
    obtain ⟨a, hbar, hm⟩ := accepts_branch.1 hb
    obtain ⟨hatom, hm⟩ := spelled_of_atom hP hm
    exact .cons hn h hbar (ih hatom hm)

theorem accepts_quantifiable (hP : Sound P) : (quantifiable P).Accepts s n t ↔
    ∃ m ms u, (atom P).Accepts s m u ∧ (branch P).Repeats u ms t ∧
      n = branches (m :: ms) (.between s.offset t.offset) := by
  simp only [quantifiable, separatedBy, accepts_spanned, accepts_bind, accepts_pure]
  have hmany : ∀ u ms v, ((char '|').andThen fun _ => atom P).many.Accepts u ms v ↔
      (branch P).Repeats u ms v := fun u ms v => accepts_many (advances_branch hP)
  simp only [hmany]
  constructor
  · rintro ⟨_, ⟨_, _, ⟨m, u, hm, ms, _, hms, rfl, rfl⟩, rfl, rfl⟩, rfl⟩
    exact ⟨m, ms, u, hm, hms, rfl⟩
  · rintro ⟨m, ms, u, hm, hms, rfl⟩
    exact ⟨_, ⟨_, t, ⟨m, u, hm, ms, t, hms, rfl, rfl⟩, rfl, rfl⟩, rfl⟩

theorem spelled_of_quantifiable (hP : Sound P) (h : (quantifiable P).Accepts s n t) :
    ¬ n.IsQuantifier ∧ n.Spelled s t := by
  obtain ⟨m, ms, u, hm, hms, rfl⟩ := (accepts_quantifiable hP).1 h
  obtain ⟨hatom, hm⟩ := spelled_of_atom hP hm
  cases hms with
  | done _ => exact ⟨hatom.not_isQuantifier, hm⟩
  | more hb hbs =>
    exact ⟨id, .alternation (by simp) (spelledBarred_of_repeats hP hatom hm (.more hb hbs))⟩

theorem accepts_quantified : (quantified P).Accepts s ns t ↔ ∃ n q u,
    (quantifiable P).Accepts s n u ∧ (optional quantifier).Accepts u q t ∧ ns = n :: q.toList := by
  simp only [quantified, accepts_bind, accepts_pure]
  constructor
  · rintro ⟨n, u, hn, q, _, hq, rfl, rfl⟩
    exact ⟨n, q, u, hn, hq, rfl⟩
  · rintro ⟨n, q, u, hn, hq, rfl⟩
    exact ⟨n, u, hn, q, t, hq, rfl, rfl⟩

theorem spelledAll_of_quantified (hP : Sound P) (h : (quantified P).Accepts s ns t) :
    ns ≠ [] ∧ SpelledAll ns s t := by
  obtain ⟨n, q, u, hn, hq, rfl⟩ := accepts_quantified.1 h
  obtain ⟨hnot, hn⟩ := spelled_of_quantifiable hP hn
  refine ⟨by simp, ?_⟩
  rcases accepts_optional.1 hq with ⟨m, rfl, hm⟩ | ⟨rfl, rfl, -⟩
  · obtain ⟨r, v, hw, hr, hend, rfl⟩ := accepts_quantifier.1 hm
    exact .repeated hnot hn (.quantifier hw hr hend) .nil
  · exact .cons hnot hn .nil

theorem advances_quantified (hP : Sound P) : (quantified P).Advances := by
  intro s ns t h
  obtain ⟨n, q, u, hn, hq, rfl⟩ := accepts_quantified.1 h
  obtain ⟨v, hne, hv⟩ := (spelled_of_quantifiable hP hn).2.reads
  rcases accepts_optional.1 hq with ⟨m, rfl, hm⟩ | ⟨rfl, rfl, -⟩
  · obtain ⟨r, w, -, hw, -⟩ := accepts_quantifier.1 hm
    exact ⟨v ++ w, by simp [hne], hv.trans hw⟩
  · exact ⟨v, hne, hv⟩

theorem accepts_patternWithin_succ {depth : Nat} (hP : Sound (patternWithin depth)) :
    (patternWithin (depth + 1)).Accepts s ns t ↔
      ∃ runs, (quantified (patternWithin depth)).Repeats s runs t ∧ ns = runs.flatten := by
  simp only [patternWithin, accepts_bind, accepts_many (advances_quantified hP), accepts_pure]
  constructor
  · rintro ⟨runs, _, h, rfl, rfl⟩
    exact ⟨runs, h, rfl⟩
  · rintro ⟨runs, h, rfl⟩
    exact ⟨runs, t, h, rfl, rfl⟩

theorem sound_patternWithin : ∀ depth, Sound (patternWithin depth)
  | 0 => by
    intro s ns t h
    obtain ⟨rfl, rfl⟩ := accepts_accept.1 h
    exact .nil
  | depth + 1 => by
    have hP := sound_patternWithin depth
    intro s ns t h
    obtain ⟨runs, hruns, rfl⟩ := (accepts_patternWithin_succ hP).1 h
    -- The induction is on the runs alone; `h` speaks of all of them at once.
    clear h
    induction hruns with
    | done _ => exact .nil
    | more hrun _ ih => exact (spelledAll_of_quantified hP hrun).2.append ih

theorem accepts_pattern :
    pattern.Accepts s ns t ↔ (patternWithin (s.rest.length + 1)).Accepts s ns t := by
  simp only [Accepts, pattern]

theorem accepts_whole {nodes : List Node} (h : whole.Accepts s nodes t) :
    SpelledAll nodes s t ∧ t.rest = [] := by
  obtain ⟨hp, ht⟩ := accepts_complete.1 h
  exact ⟨sound_patternWithin _ (accepts_pattern.1 hp), ht⟩

end Grammar

theorem parse_eq_ok_iff {p : Text} {nodes : List Node} :
    parse p = .ok nodes ↔ ∃ t, whole.Accepts (.start p) nodes t := by
  simp only [parse, Reader.Accepts]
  cases whole (.start p) <;> simp [eq_comm]

theorem parse_eq_error_iff {p : Text} {f : Failure} :
    parse p = .error f ↔ ∃ o, whole (.start p) = .stuck o ∧ o.failure = f := by
  unfold parse
  cases whole (.start p) <;> simp

/-- A tree that is read from a pattern is spelled by the whole of it. -/
theorem spelledAll_of_parse {p : Text} {nodes : List Node} (h : parse p = .ok nodes) :
    Node.SpelledAll nodes (.start p) ⟨p.length, []⟩ := by
  obtain ⟨t, ht⟩ := parse_eq_ok_iff.1 h
  obtain ⟨hs, hend⟩ := accepts_whole ht
  obtain ⟨v, hv⟩ := hs.before
  have hrest : p = v := by simpa [Place.start, hend] using hv.rest
  have ho : t.offset = p.length := by simpa [Place.start, hrest] using hv.offset
  have ht : t = ⟨p.length, []⟩ := Place.Reads.eq_of_eq hend ho
  exact ht ▸ hs

end PatternAnatomy
