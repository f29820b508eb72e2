import PatternAnatomy.Proofs.Grammar.Language

namespace PatternAnatomy

namespace Grammar

open Reader Node

/-- What the reader may go on with: another atom or the end; also a bar or a quantifier, right
behind an atom; or nothing but an atom, behind a bar. -/
inductive Stage where
  | ready | filled | barred

/-- At one stage of the reader, the text `s` is the rest of a pattern up to `u`, where the text ends
or a bracket closes. Verbatim runs are taken character by character, so that no step depends on
what comes later. -/
inductive Completes : Stage → Text → Text → Prop where
  | stop {m : Stage} {s : Text} (hm : m ≠ .barred) (hs : ∀ c, s.head? = some c → c = ')') :
    Completes m s s
  | character {m : Stage} {c : Char} {t u : Text} (hc : c = '.' ∨ c = '\\' ∨ c ∉ significant)
      (h : Completes .filled t u) : Completes m (c :: t) u
  | charList {m : Stage} {s t u : Text} (hl : ListReaches s t) (h : Completes .filled t u) :
    Completes m ('[' :: s) u
  | group {m : Stage} {s t u : Text} {nonCapturing : Bool} {name : Option Text}
      (hname : ∀ w ∈ name, IsName w) (hin : Completes .ready s (')' :: t))
      (h : Completes .filled t u) : Completes m ('(' :: groupHeader nonCapturing name ++ s) u
  | bar {t u : Text} (h : Completes .barred t u) : Completes .filled ('|' :: t) u
  | quantifier {v t u : Text} {r : Repetition} (hv : r.Written v) (h : Completes .ready t u) :
    Completes .filled (v ++ t) u

namespace Completes

variable {m : Stage} {s t u v : Text}

theorem filled_of_ready (h : Completes .ready s u) : Completes .filled s u := by
  cases h with
  | stop _ hs => exact .stop (by simp) hs
  | character hc h => exact .character hc h
  | charList hl h => exact .charList hl h
  | group hname hin h => exact .group hname hin h

theorem verbatim (hv : ∀ c ∈ v, c ∉ significant) (hne : v ≠ []) (h : Completes .filled t u) :
    Completes m (v ++ t) u := by
  induction v generalizing m with
  | nil => exact absurd rfl hne
  | cons c v ih =>
    have hc : c ∉ significant := hv c (by simp)
    by_cases hv' : v = []
    · subst hv'
      exact .character (.inr (.inr hc)) h
    · exact .character (.inr (.inr hc)) (ih (fun d hd => hv d (by simp [hd])) hv')

theorem opensAtom (h : Completes .barred s u) : ∃ c, s.head? = some c ∧ OpensAtom c := by
  cases h with
  | stop hm => exact absurd rfl hm
  | character hc =>
    refine ⟨_, rfl, ?_⟩
    rcases hc with rfl | rfl | hc
    · exact .inl (by simp)
    · exact .inl (by simp)
    · exact .inr hc
  | charList => exact ⟨'[', rfl, .inl (by simp)⟩
  | group => exact ⟨'(', rfl, .inl (by simp)⟩

theorem ready_cases (h : Completes .ready s u) :
    Completes .barred s u ∨ (s = u ∧ ∀ c, s.head? = some c → c = ')') := by
  cases h with
  | stop _ hs => exact .inr ⟨rfl, hs⟩
  | character hc h => exact .inl (.character hc h)
  | charList hl h => exact .inl (.charList hl h)
  | group hname hin h => exact .inl (.group hname hin h)

theorem filled_cases (h : Completes .filled s u) : Completes .ready s u ∨
    (∃ t, s = '|' :: t ∧ Completes .barred t u) ∨
      ∃ r v t, Repetition.Written r v ∧ s = v ++ t ∧ Completes .ready t u := by
  cases h with
  | stop _ hs => exact .inl (.stop (by simp) hs)
  | character hc h => exact .inl (.character hc h)
  | charList hl h => exact .inl (.charList hl h)
  | group hname hin h => exact .inl (.group hname hin h)
  | bar h => exact .inr (.inl ⟨_, rfl, h⟩)
  | quantifier hv h => exact .inr (.inr ⟨_, _, _, hv, rfl, h⟩)

/-- Where no quantifier is due, neither a bar nor the sign of a quantifier or a header stands. -/
theorem head?_ne_of_ready {c : Char} (h : Completes .ready s u) (hc : c ∈ significant)
    (hno : c ∉ ['.', '\\', '[', '(', ')']) : s.head? ≠ some c := by
  intro hs
  rcases h.ready_cases with h | ⟨-, hend⟩
  · obtain ⟨d, hd, hopens⟩ := h.opensAtom
    rw [hs, Option.some.injEq] at hd
    apply hopens.ne hc _ hd.symm
    simp_all
  · have hclose := hend c hs
    simp_all

theorem barred_of_opensAtom {c : Char} (h : Completes m s u) (hs : s.head? = some c)
    (hc : OpensAtom c) : Completes .barred s u := by
  cases h with
  | stop _ hend => exact absurd (hend c hs) (hc.ne (by decide) (by decide))
  | character hc h => exact .character hc h
  | charList hl h => exact .charList hl h
  | group hname hin h => exact .group hname hin h
  | bar => exact absurd (Option.some.inj hs).symm (hc.ne (by decide) (by decide))
  | quantifier hv =>
    obtain ⟨d, hd, hsig, hno⟩ := hv.head?
    rw [List.head?_append, hd, Option.some_or, Option.some.injEq] at hs
    exact absurd hs.symm (hc.ne hsig (by simp_all))

theorem of_barred (h : Completes .barred s u) : Completes m s u := by
  cases h with
  | stop hm => exact absurd rfl hm
  | character hc h => exact .character hc h
  | charList hl h => exact .charList hl h
  | group hname hin h => exact .group hname hin h

theorem of_character {c : Char} (hc : c = '.' ∨ c = '\\' ∨ c ∉ significant)
    (h : Completes m (c :: t) u) : Completes .filled t u := by
  have hopens : OpensAtom c := by
    rcases hc with rfl | rfl | hc
    · exact .inl (by simp)
    · exact .inl (by simp)
    · exact .inr hc
  have h := h.barred_of_opensAtom rfl hopens
  generalize hs : c :: t = s at h
  cases h with
  | stop hm => exact absurd rfl hm
  | character _ h =>
    cases hs
    exact h
  | charList | group =>
    obtain ⟨rfl, -⟩ := List.cons.inj hs
    exact absurd hc (by decide)

theorem of_bar (h : Completes m ('|' :: t) u) : Completes .barred t u := by
  generalize hs : '|' :: t = s at h
  cases h with
  | stop _ hend =>
    subst hs
    exact absurd (hend '|' rfl) (by decide)
  | character hc =>
    cases hs
    exact absurd hc (by decide)
  | charList | group => cases hs
  | bar h =>
    cases hs
    exact h
  | quantifier hv =>
    obtain ⟨d, hd, -, hno⟩ := hv.head?
    have hbar := congrArg List.head? hs
    rw [List.head?_append, hd] at hbar
    cases hbar
    exact absurd (by simp) hno

theorem of_verbatim (hv : ∀ c ∈ v, c ∉ significant) (hne : v ≠ []) (h : Completes m (v ++ t) u) :
    Completes .filled t u := by
  induction v generalizing m with
  | nil => exact absurd rfl hne
  | cons c v ih =>
    have hrest := of_character (.inr (.inr (hv c (by simp)))) h
    by_cases hv' : v = []
    · subst hv'
      exact hrest
    · exact ih (fun d hd => hv d (by simp [hd])) hv' hrest

end Completes

/-- A derivation carries what completes the text behind it over to the text before it. -/
theorem Derives.completes {x : Part} {s t : Text} (h : Derives x s t) : match x with
    | .pattern | .run => ∀ u, Completes .ready t u → Completes .ready s u
    | .atoms | .atom => ∀ m u, Completes .filled t u → Completes m s u := by
  -- What stands behind a part stays open in the induction: of two verbatim runs side by side, which
  -- the reader takes for one, the first is no run by itself.
  induction h with
  | empty => exact fun _ h => h
  | more _ _ ih ihs => exact fun u h => ih u (ihs u h)
  | plain _ ih => exact fun u h => ih .ready u h.filled_of_ready
  | repeated _ hv ih => exact fun u h => ih .ready u (.quantifier hv h)
  | single _ ih => exact ih
  | barred _ _ ih ihs => exact fun m u h => ih m u (.bar (ihs .barred u h))
  | anyChar => exact fun m u h => .character (.inl rfl) h
  | escape => exact fun m u h => .character (.inr (.inl rfl)) h
  | verbatim hne hv => exact fun m u h => .verbatim hv hne h
  | group hname _ ih => exact fun m u h => .group hname (ih _ (.stop (by simp) (by simp))) h
  | charList hl => exact fun m u h => .charList hl h

variable {P : Reader (List Node)} {k : Nat} {m : Stage} {n : Node} {s t : Place} {u : Text}

theorem exists_spelled_of_behindItem {v : Text} (h : behindItem s.rest = some v) :
    ∃ (i : Item) (t : Place), i.Spelled s t ∧ t.rest = v := by
  unfold behindItem at h
  split at h
  next a b r hs =>
    cases h
    exact ⟨_, _, .range (.of_append (v := [a, '-', b]) hs), rfl⟩
  next c r hno hs =>
    split at h
    next => cases h
    next hc =>
      cases h
      refine ⟨_, _, .single (.of_append (v := [c]) hs) hc ?_, rfl⟩
      rintro ⟨a, b, w, hw⟩
      rw [hs] at hw
      obtain ⟨rfl, rfl⟩ := List.cons.inj hw
      exact hno _ _ rfl
  next => cases h

theorem refuses_item_of_behindItem (h : behindItem s.rest = none) : item.Refuses s := by
  rw [refuses_item]
  unfold behindItem at h
  split at h
  next => cases h
  next c r hno hs =>
    split at h
    next hc =>
      refine ⟨?_, by simp [hs, hc]⟩
      rintro ⟨a, b, w, hw⟩
      rw [hs] at hw
      obtain ⟨rfl, rfl⟩ := List.cons.inj hw
      exact hno _ _ rfl
    next => cases h
  next hs =>
    refine ⟨?_, by simp [hs]⟩
    rintro ⟨a, b, w, hw⟩
    rw [hs] at hw
    cases hw

theorem exists_spelledAll_of_scans {v w : Text} (h : Scans v w) (hs : s.rest = v) :
    ∃ (is : List Item) (t : Place), Item.SpelledAll is s t ∧ t.rest = w ∧ item.Refuses t := by
  induction h generalizing s with
  | stop h => exact ⟨[], s, .nil, hs, refuses_item_of_behindItem (hs ▸ h)⟩
  | item h _ ih =>
    obtain ⟨i, a, hi, ha⟩ := exists_spelled_of_behindItem (hs ▸ h)
    obtain ⟨is, t, his, ht⟩ := ih ha
    exact ⟨i :: is, t, .cons hi his, ht⟩

theorem charList_accepts {v w : Text} (hs : s.rest = '[' :: v) (h : ListReaches v w) :
    ∃ n t, charList.Accepts s n t ∧ t.rest = w := by
  obtain ⟨negated, a, ha, hcaret, hv⟩ : ∃ negated a, s.Reads (opening negated) a ∧
      (negated = false → a.rest.head? ≠ some '^') ∧ a.rest = behindCaret v := by
    unfold behindCaret
    split
    next r =>
      exact ⟨true, _, .of_append (v := ['[', '^']) hs, by simp, rfl⟩
    next hno =>
      refine ⟨false, _, .of_append (v := ['[']) hs, ?_, rfl⟩
      intro _ hcaret
      obtain ⟨r, hr⟩ := List.head?_eq_some_iff.1 hcaret
      exact hno r hr
  obtain ⟨hsome, hscan⟩ := h
  obtain ⟨is, b, his, hb, hend⟩ := exists_spelledAll_of_scans hscan hv
  have hne : is ≠ [] := by
    rintro rfl
    cases his
    obtain ⟨x, hx⟩ := Option.ne_none_iff_exists'.1 hsome
    obtain ⟨i, t, hi, -⟩ := exists_spelled_of_behindItem (hv ▸ hx)
    exact (accepts_item.2 hi).not_refuses hend
  have hclose : b.Reads [']'] _ := .of_append hb
  exact ⟨_, _, accepts_charList.2 ⟨is, negated, a, b, ha, hcaret, hne, his, (refuses_item.1 hend).1,
    hclose, rfl⟩, rfl⟩

/-- Some reader of patterns loses no pattern on texts of less than `k` characters: it accepts
something everywhere, and where a pattern is due it reads on to its end. -/
structure Lossless (P : Reader (List Node)) (k : Nat) : Prop where
  sound : Sound P
  total : ∀ s, ∃ ns t, P.Accepts s ns t
  exact : ∀ {s ns t u}, s.rest.length < k → P.Accepts s ns t → Completes .ready s.rest u →
    t.rest = u

theorem verbatim_accepts {c : Char} {r : Text} (hs : s.rest = c :: r) (hc : c ∉ significant) :
    ∃ v t, v ≠ [] ∧ s.Reads v t ∧ (∀ c ∈ v, c ∉ significant) ∧ ∃ n, verbatim.Accepts s n t := by
  have hp := advances_satisfying (fun c => decide (c ∉ significant))
  obtain ⟨v, t, hv⟩ := exists_repeats hp s
  obtain ⟨hr, hplain, hend⟩ := repeats_satisfying.1 hv
  have hne : v ≠ [] := by
    rintro rfl
    obtain rfl := Place.Reads.nil_iff.1 hr
    exact absurd hc (by simpa using hend c (by simp [hs]))
  simp only [decide_eq_true_eq, decide_eq_false_iff_not, not_not] at hplain hend
  exact ⟨v, t, hne, hr, hplain, _, accepts_verbatim.2 ⟨v, hne, hr, hplain, hend, rfl⟩⟩

theorem atom_accepts (hP : Lossless P k) (hk : s.rest.length ≤ k)
    (h : Completes .barred s.rest u) :
    ∃ n t, (atom P).Accepts s n t ∧ Completes .filled t.rest u := by
  generalize hs : s.rest = r at h
  cases h with
  | stop hm => exact absurd rfl hm
  | character hc h =>
    rcases hc with rfl | rfl | hc
    · have hr : s.Reads ['.'] _ := .of_append hs
      exact ⟨_, _, accepts_atom.2 (.inl (accepts_anyCharacter.2 ⟨hr, rfl⟩)), h⟩
    · have hr : s.Reads ['\\'] _ := .of_append hs
      exact ⟨_, _, accepts_atom.2 (.inr (.inl (accepts_escape.2 ⟨hr, rfl⟩))), h⟩
    · obtain ⟨v, t, hne, hr, hplain, n, hn⟩ := verbatim_accepts hs hc
      have hrest : Completes .filled s.rest u := hs ▸ .character (.inr (.inr hc)) h
      rw [hr.rest] at hrest
      exact ⟨n, t, accepts_atom.2 (.inr (.inr (.inr (.inl hn)))), hrest.of_verbatim hplain hne⟩
  | charList hl h =>
    obtain ⟨n, t, hn, rfl⟩ := charList_accepts hs hl
    exact ⟨n, t, accepts_atom.2 (.inr (.inr (.inl hn))), h⟩
  | @group _ inside r _ nonCapturing name hname hin h =>
    have ha : s.Reads ('(' :: groupHeader nonCapturing name) ⟨_, inside⟩ := .of_append hs
    obtain ⟨cs, b, hcs⟩ := hP.total ⟨_, inside⟩
    -- The bracket is behind the reader, and less text than it is lossless on is left.
    have hlt : inside.length < k := by
      have hlen : inside.length + (_ + 1) = s.rest.length := ha.length
      omega
    have hb : b.rest = ')' :: r := hP.exact hlt hcs hin
    have hclose : b.Reads [')'] _ := .of_append hb
    have hq : inside.head? ≠ some '?' := hin.head?_ne_of_ready (by decide) (by decide)
    have hgroup := group_accepts ha hname hq hcs hclose
    exact ⟨_, _, accepts_atom.2 (.inr (.inr (.inr (.inr hgroup)))), h⟩

theorem completes_of_atom (hP : Lossless P k) (hk : s.rest.length ≤ k) (h : (atom P).Accepts s n t)
    (hc : Completes m s.rest u) : Completes .filled t.rest u := by
  obtain ⟨hatom, hn⟩ := spelled_of_atom hP.sound h
  obtain ⟨c, hs, hopens⟩ := hn.opensAtom_of_isAtom hatom
  obtain ⟨n', t', h', ht⟩ := atom_accepts hP hk (hc.barred_of_opensAtom hs hopens)
  obtain ⟨-, rfl⟩ := h.unique h'
  exact ht

/-- All bars in a row are taken, each with the atom behind it. -/
theorem completes_of_branches {ns : List Node} (hP : Lossless P k) (hk : s.rest.length ≤ k)
    (h : (branch P).Repeats s ns t) (hc : Completes .filled s.rest u) :
    Completes .filled t.rest u ∧ t.rest.head? ≠ some '|' := by
  induction h with
  | done hend =>
    -- Behind a bar there is an atom, and the reader would not have stopped before the bar.
    refine ⟨hc, fun hbar => ?_⟩
    obtain ⟨w, hs⟩ := List.head?_eq_some_iff.1 hbar
    have hr : Place.Reads _ ['|'] _ := .of_append hs
    have hlen : w.length + 1 = _ := hr.length
    have hw : Completes .barred w u := (hs ▸ hc).of_bar
    obtain ⟨n, t, hn, -⟩ := atom_accepts (s := ⟨_, w⟩) hP (by simp only; omega) hw
    exact refuses_iff.1 hend n t (accepts_branch.2 ⟨_, hr, hn⟩)
  | more hb _ ih =>
    obtain ⟨a, hr, hn⟩ := accepts_branch.1 hb
    have hlen := hr.length
    have hlt := (advances_branch hP.sound).length_lt hb
    rw [hr.rest] at hc
    apply ih
    · omega
    · exact completes_of_atom hP (by omega) hn hc.of_bar

theorem completes_of_quantifiable (hP : Lossless P k) (hk : s.rest.length ≤ k)
    (h : (quantifiable P).Accepts s n t) (hc : Completes .ready s.rest u) :
    Completes .filled t.rest u ∧ t.rest.head? ≠ some '|' := by
  obtain ⟨m, ms, a, hm, hms, rfl⟩ := (accepts_quantifiable hP.sound).1 h
  have hlt := (advances_atom hP.sound).length_lt hm
  have ha := completes_of_atom hP hk hm hc
  apply completes_of_branches hP _ hms ha
  omega

theorem completes_of_optional_quantifier {q : Option Node} (h : (optional quantifier).Accepts s q t)
    (hbar : s.rest.head? ≠ some '|') (hc : Completes .filled s.rest u) :
    Completes .ready t.rest u := by
  rcases hc.filled_cases with hc | ⟨w, hs, -⟩ | ⟨r, v, w, hv, hs, hc⟩
  · rcases accepts_optional.1 h with ⟨n, -, hn⟩ | ⟨-, rfl, -⟩
    · obtain ⟨r, v, hv, hr, -⟩ := accepts_quantifier.1 hn
      obtain ⟨d, hd, hsig, hno⟩ := hv.head?
      have hs := hr.head? hv.ne_nil
      rw [hd] at hs
      apply absurd hs
      apply hc.head?_ne_of_ready hsig
      simp_all
    · exact hc
  · exact absurd (by rw [hs]; rfl) hbar
  · have hr : s.Reads v ⟨_, w⟩ := .of_append hs
    -- No pattern goes on with a question mark here, which could make the sign a longer one.
    have hend : ¬ Repetition.Continues v w := fun hq =>
      hc.head?_ne_of_ready (by decide) (by decide) hq.2
    have hn := accepts_quantifier.2 ⟨r, v, hv, hr, hend, rfl⟩
    obtain ⟨-, rfl⟩ := h.unique (accepts_optional.2 (.inl ⟨_, rfl, hn⟩))
    exact hc

theorem completes_of_quantified {ns : List Node} (hP : Lossless P k) (hk : s.rest.length ≤ k)
    (h : (quantified P).Accepts s ns t) (hc : Completes .ready s.rest u) :
    Completes .ready t.rest u := by
  obtain ⟨n, q, a, hn, hq, rfl⟩ := accepts_quantified.1 h
  obtain ⟨ha, hbar⟩ := completes_of_quantifiable hP hk hn hc
  exact completes_of_optional_quantifier hq hbar ha

theorem exists_accepts_optional {α : Type} (p : Reader α) (s : Place) :
    ∃ o t, (optional p).Accepts s o t := by
  rcases p.accepts_or_refuses s with ⟨a, t, h⟩ | h
  · exact ⟨some a, t, accepts_optional.2 (.inl ⟨a, rfl, h⟩)⟩
  · exact ⟨none, s, accepts_optional.2 (.inr ⟨rfl, rfl, h⟩)⟩

/-- Behind an atom, the reader cannot be stopped in a run. -/
theorem quantified_accepts (hP : Lossless P k) (h : (atom P).Accepts s n t) :
    ∃ ns a, (quantified P).Accepts s ns a := by
  obtain ⟨ms, a, hms⟩ := exists_repeats (advances_branch hP.sound) t
  have hn := (accepts_quantifiable hP.sound).2 ⟨n, ms, t, h, hms, rfl⟩
  obtain ⟨q, b, hq⟩ := exists_accepts_optional quantifier a
  exact ⟨_, b, accepts_quantified.2 ⟨_, q, a, hn, hq, rfl⟩⟩

theorem rest_eq_of_repeats {runs : List (List Node)} (hP : Lossless P k) (hk : s.rest.length ≤ k)
    (h : (quantified P).Repeats s runs t) (hc : Completes .ready s.rest u) : t.rest = u := by
  -- By induction on the runs, each of which leaves a text that completes to the same end.
  induction h with
  | done hend =>
    rcases hc.ready_cases with hc | ⟨hs, -⟩
    · obtain ⟨n, t, hn, -⟩ := atom_accepts hP hk hc
      obtain ⟨ns, a, hns⟩ := quantified_accepts hP hn
      exact absurd hend hns.not_refuses
    · exact hs
  | more hrun _ ih =>
    have hlt := (advances_quantified hP.sound).length_lt hrun
    apply ih
    · omega
    · exact completes_of_quantified hP hk hrun hc

theorem lossless_patternWithin : ∀ depth, Lossless (patternWithin depth) depth
  | 0 => {
      sound := sound_patternWithin 0
      total := fun s => ⟨[], s, accepts_accept.2 ⟨rfl, rfl⟩⟩
      exact := fun hlt => absurd hlt (Nat.not_lt_zero _) }
  | depth + 1 => {
      sound := sound_patternWithin (depth + 1)
      total := fun s => by
        have hP := sound_patternWithin depth
        obtain ⟨runs, t, h⟩ := exists_repeats (advances_quantified hP) s
        exact ⟨_, t, (accepts_patternWithin_succ hP).2 ⟨runs, h, rfl⟩⟩
      exact := fun hlt h hc => by
        -- Groups read to the depth below, which is lossless on the shorter text inside them.
        have hP := lossless_patternWithin depth
        obtain ⟨runs, hruns, rfl⟩ := (accepts_patternWithin_succ hP.sound).1 h
        exact rest_eq_of_repeats hP (by omega) hruns hc }

theorem Derives.completes_whole {p : Text} (h : Derives .pattern p []) : Completes .ready p [] :=
  h.completes [] (.stop (by simp) (by simp))

end Grammar

/-- Reading cannot stop before the end of a text that completes to nothing. -/
theorem exists_parse_of_completes {p : Text} (h : Grammar.Completes .ready p []) :
    ∃ nodes, parse p = .ok nodes := by
  have hP := Grammar.lossless_patternWithin (p.length + 1)
  obtain ⟨nodes, t, ht⟩ := hP.total (.start p)
  have hend : t.rest = [] := hP.exact (Nat.lt_succ_self _) ht h
  have hwhole : Grammar.whole.Accepts (.start p) nodes t :=
    Reader.accepts_complete.2 ⟨Grammar.accepts_pattern.2 ht, hend⟩
  exact ⟨nodes, parse_eq_ok_iff.2 ⟨t, hwhole⟩⟩

/-- The patterns that are accepted are those of the grammar, and no others. -/
theorem exists_parse_iff_derives (p : Text) :
    (∃ nodes, parse p = .ok nodes) ↔ Grammar.Derives .pattern p [] := by
  constructor
  · rintro ⟨nodes, h⟩
    exact (spelledAll_of_parse h).derives
  · intro h
    exact exists_parse_of_completes h.completes_whole

theorem exists_parse_iff_completes {p : Text} :
    (∃ nodes, parse p = .ok nodes) ↔ Grammar.Completes .ready p [] := by
  constructor
  · rintro ⟨nodes, h⟩
    exact (spelledAll_of_parse h).derives.completes_whole
  · exact exists_parse_of_completes

end PatternAnatomy
