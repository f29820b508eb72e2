import PatternAnatomy.Call
import PatternAnatomy.Proofs.Reading.Acceptance

namespace PatternAnatomy.Call

variable {s t u v lead rest : Text} {c : Call} {i k : Nat}

def IsBlank (t : Text) : Prop := ∀ c ∈ t, Text.isBlank c = true

def IsHeader (t : Text) : Prop :=
  ∃ a q b d, IsBlank a ∧ (q = [] ∨ q ∈ qualifiers) ∧ IsBlank b ∧ IsBlank d ∧
    t = "new".toList ++ a ++ q ++ "Regex".toList ++ b ++ ['('] ++ d

/-- Quotes stand in pairs only. -/
inductive IsVerbatimBody : Text → Prop where
  | nil : IsVerbatimBody []
  | quotes {b : Text} (h : IsVerbatimBody b) : IsVerbatimBody ('"' :: '"' :: b)
  | char {c : Char} {b : Text} (hc : c ≠ '"') (h : IsVerbatimBody b) : IsVerbatimBody (c :: b)

/-- Quotes and backslashes stand behind a backslash only, and line feeds never do. -/
inductive IsRegularBody : Text → Prop where
  | nil : IsRegularBody []
  | escaped {c : Char} {b : Text} (hc : c ≠ '\n') (h : IsRegularBody b) :
    IsRegularBody ('\\' :: c :: b)
  | char {c : Char} {b : Text} (hq : c ≠ '"') (hb : c ≠ '\\') (h : IsRegularBody b) :
    IsRegularBody (c :: b)

namespace Form

def opening : Form → Text
  | verbatim => ['@', '"']
  | regular => ['"']

def IsBody : Form → Text → Prop
  | verbatim => IsVerbatimBody
  | regular => IsRegularBody

end Form

/-- The pieces are those of a call: a header and the opening of the literal, its body, and from the
closing quote on to the first parenthesis that closes. -/
structure Written (c : Call) : Prop where
  lead : ∃ h, IsHeader h ∧ c.lead = h ++ c.form.opening
  body : c.form.IsBody c.body
  tail : ∃ w, ')' ∉ w ∧ c.tail = '"' :: w ++ [')']

theorem Written.text_ne_nil (h : c.Written) : c.text ≠ [] := by
  obtain ⟨w, -, htail⟩ := h.tail
  simp [text, htail]

namespace Splitter

theorem word_append (w t : Text) : word w (w ++ t) = some (w, t) := by
  have hrest : w.isPrefixOf? (w ++ t) = some t := by
    induction w with
    | nil => rfl
    | cons c w ih =>
      have hcons : (c :: w).isPrefixOf? (c :: w ++ t) =
          if c == c then w.isPrefixOf? (w ++ t) else none := rfl
      rw [hcons, beq_self_eq_true, if_pos rfl, ih]
  rw [word, hrest]
  rfl

theorem blanks_append (ha : IsBlank t) (hr : ∀ c, rest.head? = some c → Text.isBlank c = false) :
    blanks (t ++ rest) = some (t, rest) := by
  have hdrop : (t ++ rest).dropWhile Text.isBlank = rest := by
    rw [List.dropWhile_append_of_pos ha]
    cases rest with
    | nil => rfl
    | cons c rest => rw [List.dropWhile_cons, hr c rfl, if_neg Bool.false_ne_true]
  rw [blanks, Text.takeWhile_run ha hr, hdrop]

theorem followedBy_eq_some {p q : Splitter} {a b : Text} (hp : p s = some (a, t))
    (hq : q t = some (b, u)) : p.followedBy q s = some (a ++ b, u) := by
  simp only [followedBy, hp, Option.bind_eq_bind, Option.bind_some, hq, Option.pure_def]

theorem exists_of_followedBy {p q : Splitter} (h : p.followedBy q s = some (v, u)) :
    ∃ a t b, p s = some (a, t) ∧ q t = some (b, u) ∧ v = a ++ b := by
  simp only [followedBy, Option.bind_eq_bind, Option.bind_eq_some_iff, Prod.exists,
    Option.pure_def, Option.some.injEq, Prod.mk.injEq] at h
  obtain ⟨a, t, ha, b, u, hb, rfl, rfl⟩ := h
  exact ⟨a, t, b, ha, hb, rfl⟩

theorem eq_of_word (h : word s t = some (v, u)) : v = s := by
  simp only [word, Option.map_eq_some_iff, Prod.mk.injEq] at h
  obtain ⟨_, _, rfl, _⟩ := h
  rfl

theorem isBlank_of_blanks (h : blanks s = some (v, u)) : IsBlank v := by
  simp only [blanks, Option.some.injEq, Prod.mk.injEq] at h
  obtain ⟨rfl, -⟩ := h
  intro c hc
  exact (List.all_eq_true.1 List.all_takeWhile) c hc

theorem eq_nil_or_mem_of_oneOf? {ws : List Text} (h : oneOf? ws s = some (v, u)) :
    v = [] ∨ v ∈ ws := by
  induction ws with
  | nil =>
    simp only [oneOf?, Option.some.injEq, Prod.mk.injEq] at h
    exact .inl h.1.symm
  | cons w ws ih =>
    simp only [oneOf?, Option.or_eq_some_iff] at h
    rcases h with h | ⟨-, h⟩
    · exact .inr (eq_of_word h ▸ List.mem_cons_self)
    · exact (ih h).imp_right (List.mem_cons_of_mem w)

end Splitter

open Splitter

/-- The word behind a qualifier tells which qualifier it is. -/
theorem oneOf?_qualifiers {q : Text} (hq : q = [] ∨ q ∈ qualifiers) (t : Text) :
    oneOf? qualifiers (q ++ ("Regex".toList ++ t)) = some (q, "Regex".toList ++ t) := by
  rcases hq with rfl | hq
  · rfl
  · rw [qualifiers, List.mem_cons, List.mem_singleton] at hq
    rcases hq with rfl | rfl <;> rfl

theorem isBlank_head?_qualified {q : Text} (hq : q = [] ∨ q ∈ qualifiers) :
    ∀ c, (q ++ ("Regex".toList ++ t)).head? = some c → Text.isBlank c = false := by
  intro c hc
  rcases hq with rfl | hq
  · obtain rfl : 'R' = c := Option.some.inj hc
    rfl
  · rw [qualifiers, List.mem_cons, List.mem_singleton] at hq
    rcases hq with rfl | rfl
    · obtain rfl : 'S' = c := Option.some.inj hc
      rfl
    · obtain rfl : 'g' = c := Option.some.inj hc
      rfl

theorem header_append (h : IsHeader lead) (ht : ∀ c, t.head? = some c → Text.isBlank c = false) :
    header (lead ++ t) = some (lead, t) := by
  obtain ⟨a, q, b, d, ha, hq, hb, hd, rfl⟩ := h
  have hparen : ∀ c, ('(' :: (d ++ t)).head? = some c → Text.isBlank c = false := by
    intro c hc
    obtain rfl : '(' = c := Option.some.inj hc
    rfl
  have hnew := word_append "new".toList (a ++ (q ++ ("Regex".toList ++ (b ++ '(' :: (d ++ t)))))
  have hblank := followedBy_eq_some hnew (blanks_append ha (isBlank_head?_qualified hq))
  have hqualified := followedBy_eq_some hblank (oneOf?_qualifiers hq _)
  have hregex := followedBy_eq_some hqualified (word_append "Regex".toList _)
  have hbefore := followedBy_eq_some hregex (blanks_append hb hparen)
  have hopen := followedBy_eq_some hbefore (word_append ['('] (d ++ t))
  have hall := followedBy_eq_some hopen (blanks_append hd ht)
  rw [← hall, header]
  congr 1
  simp only [List.append_assoc]
  rfl

theorem isHeader_of_header (h : header s = some (lead, t)) : IsHeader lead := by
  obtain ⟨_, _, d, h₁, hd, rfl⟩ := exists_of_followedBy h
  obtain ⟨_, _, o, h₂, ho, rfl⟩ := exists_of_followedBy h₁
  obtain ⟨_, _, b, h₃, hb, rfl⟩ := exists_of_followedBy h₂
  obtain ⟨_, _, r, h₄, hr, rfl⟩ := exists_of_followedBy h₃
  obtain ⟨_, _, q, h₅, hq, rfl⟩ := exists_of_followedBy h₄
  obtain ⟨n, _, a, hn, ha, rfl⟩ := exists_of_followedBy h₅
  obtain rfl := eq_of_word hn
  obtain rfl := eq_of_word hr
  obtain rfl := eq_of_word ho
  exact ⟨a, q, b, d, isBlank_of_blanks ha, eq_nil_or_mem_of_oneOf? hq, isBlank_of_blanks hb,
    isBlank_of_blanks hd, rfl⟩

/-- Whatever could be the body of a literal, one at least as long is found: a later quote can end
the literal only if a parenthesis behind it closes the call. -/
theorem verbatimBody_append {b : Text} (hb : IsVerbatimBody b) (ht : ')' ∈ t) :
    ∃ b' t', verbatimBody (b ++ '"' :: t) = some (b', t') ∧ b.length ≤ b'.length := by
  induction hb with
  | nil =>
    cases t with
    | nil => cases ht
    | cons c t =>
      by_cases hc : c = '"'
      · subst hc
        have ht : ')' ∈ t := (List.mem_cons.1 ht).resolve_left (by decide)
        rw [List.nil_append, verbatimBody]
        split
        · exact ⟨_, _, rfl, Nat.zero_le _⟩
        · exact ⟨_, _, if_pos ht, Nat.zero_le _⟩
      · refine ⟨[], '"' :: c :: t, ?_, Nat.zero_le _⟩
        rw [List.nil_append, verbatimBody, if_pos rfl, if_pos ht]
        intro r _ h
        exact hc (List.cons.inj h).1
  | @quotes b _ ih =>
    obtain ⟨b', t', h, hle⟩ := ih
    refine ⟨'"' :: '"' :: b', t', ?_, Nat.succ_le_succ (Nat.succ_le_succ hle)⟩
    rw [List.cons_append, List.cons_append, verbatimBody, h]
  | @char c b hc _ ih =>
    obtain ⟨b', t', h, hle⟩ := ih
    refine ⟨c :: b', t', ?_, Nat.succ_le_succ hle⟩
    rw [List.cons_append, verbatimBody, if_neg hc, h]
    · rfl
    · intro r h _
      exact hc h

theorem isVerbatimBody_of_verbatimBody {b : Text} (h : verbatimBody s = some (b, t)) :
    IsVerbatimBody b ∧ ∃ u, t = '"' :: u ∧ ')' ∈ u := by
  fun_induction verbatimBody s generalizing b t with
  | case1 => cases h
  | case2 r b' t' hr ih =>
    cases h
    exact ⟨.quotes (ih hr).1, (ih hr).2⟩
  | case3 r hr hp ih =>
    cases h
    exact ⟨.nil, _, rfl, List.mem_cons_of_mem _ hp⟩
  | case4 => cases h
  | case5 r hp _ =>
    cases h
    exact ⟨.nil, _, rfl, hp⟩
  | case6 => cases h
  | case7 c r hn hc ih =>
    simp only [Option.map_eq_some_iff, Prod.mk.injEq, Prod.exists] at h
    obtain ⟨b', t', hr, rfl, rfl⟩ := h
    exact ⟨.char hc (ih hr).1, (ih hr).2⟩

/-- No body can go on behind the first quote that nothing escapes. -/
theorem regularBody_append {b : Text} (hb : IsRegularBody b) (ht : ')' ∈ t) :
    regularBody (b ++ '"' :: t) = some (b, '"' :: t) := by
  induction hb with
  | nil => simp [regularBody, ht]
  | escaped hc _ ih => simp [regularBody, hc, ih]
  | char hq hb _ ih => simp [regularBody, hq, hb, ih]

theorem isRegularBody_of_regularBody {b : Text} (h : regularBody s = some (b, t)) :
    IsRegularBody b ∧ ∃ u, t = '"' :: u ∧ ')' ∈ u := by
  fun_induction regularBody s generalizing b t with
  | case1 => cases h
  | case2 => cases h
  | case3 c r hc ih =>
    simp only [Option.map_eq_some_iff, Prod.mk.injEq, Prod.exists] at h
    obtain ⟨b', t', hr, rfl, rfl⟩ := h
    exact ⟨.escaped hc (ih hr).1, (ih hr).2⟩
  | case4 r hp _ =>
    cases h
    exact ⟨.nil, _, rfl, hp⟩
  | case5 => cases h
  | case6 => cases h
  | case7 c r hn hq hb ih =>
    simp only [Option.map_eq_some_iff, Prod.mk.injEq, Prod.exists] at h
    obtain ⟨b', t', hr, rfl, rfl⟩ := h
    exact ⟨.char hq hb (ih hr).1, (ih hr).2⟩

theorem closing_eq_some_iff : closing s = some (t, rest) ↔
    ∃ w, ')' ∉ w ∧ t = w ++ [')'] ∧ s = w ++ ')' :: rest := by
  induction s generalizing t rest with
  | nil => simp [closing]
  | cons c s ih =>
    by_cases hc : c = ')'
    · subst hc
      simp only [closing, if_pos, Option.some.injEq, Prod.mk.injEq]
      constructor
      · rintro ⟨rfl, rfl⟩
        exact ⟨[], List.not_mem_nil, rfl, rfl⟩
      · rintro ⟨w, hw, rfl, h⟩
        cases w with
        | nil => exact ⟨rfl, (List.cons.inj h).2⟩
        | cons d w => exact absurd (List.mem_cons.2 (.inl (List.cons.inj h).1)) hw
    · simp only [closing, if_neg hc, Option.map_eq_some_iff, Prod.exists, ih, Prod.mk.injEq]
      constructor
      · rintro ⟨_, _, ⟨w, hw, rfl, rfl⟩, rfl, rfl⟩
        refine ⟨c :: w, ?_, rfl, rfl⟩
        rw [List.mem_cons, not_or]
        exact ⟨Ne.symm hc, hw⟩
      · rintro ⟨w, hw, rfl, h⟩
        cases w with
        | nil => exact absurd (List.cons.inj h).1 hc
        | cons d w =>
          obtain ⟨rfl, rfl⟩ := List.cons.inj h
          exact ⟨_, _, ⟨w, fun h => hw (List.mem_cons_of_mem _ h), rfl, rfl⟩, rfl, rfl⟩

theorem exists_closing (h : ')' ∈ s) : ∃ t rest, closing s = some (t, rest) := by
  obtain ⟨w, rest, rfl, hw⟩ := List.eq_append_cons_of_mem h
  exact ⟨_, _, closing_eq_some_iff.2 ⟨w, hw, rfl, rfl⟩⟩

theorem finish_eq_some_iff {form : Form} {body : Splitter} :
    finish form lead body s = some (c, rest) ↔ ∃ t, body s = some (c.body, t) ∧
      closing t = some (c.tail, rest) ∧ c.form = form ∧ c.lead = lead := by
  simp only [finish, Option.bind_eq_bind, Option.bind_eq_some_iff, Prod.exists, Option.pure_def,
    Option.some.injEq, Prod.mk.injEq]
  constructor
  · rintro ⟨b, t, hb, w, r, hw, rfl, rfl⟩
    exact ⟨t, hb, hw, rfl, rfl⟩
  · rintro ⟨t, hb, hw, rfl, rfl⟩
    exact ⟨_, t, hb, _, _, hw, rfl, rfl⟩

theorem written_of_finish {form : Form} {body : Splitter} (hlead : IsHeader lead)
    (hbody : ∀ b t, body s = some (b, t) → form.IsBody b ∧ ∃ u, t = '"' :: u ∧ ')' ∈ u)
    (h : finish form (lead ++ form.opening) body s = some (c, rest)) : c.Written := by
  obtain ⟨t, hb, hclosing, rfl, hc⟩ := finish_eq_some_iff.1 h
  obtain ⟨hbody, u, rfl, -⟩ := hbody _ _ hb
  obtain ⟨w, hw, htail, hquote⟩ := closing_eq_some_iff.1 hclosing
  cases w with
  | nil => cases hquote
  | cons d w =>
    obtain ⟨rfl, -⟩ := List.cons.inj hquote
    exact ⟨⟨lead, hlead, hc⟩, hbody, w, fun h => hw (List.mem_cons_of_mem _ h), htail⟩

theorem written_of_read? (h : read? s = some (c, rest)) : c.Written := by
  simp only [read?, Option.bind_eq_bind, Option.bind_eq_some_iff, Prod.exists] at h
  obtain ⟨lead, t, hheader, h⟩ := h
  have hlead := isHeader_of_header hheader
  split at h
  · exact written_of_finish hlead (fun _ _ => isVerbatimBody_of_verbatimBody) h
  · exact written_of_finish hlead (fun _ _ => isRegularBody_of_regularBody) h
  · cases h

theorem exists_finish {form : Form} {body : Splitter} {b : Text}
    (hbody : body s = some (b, t)) (ht : ')' ∈ t) :
    ∃ c rest, finish form lead body s = some (c, rest) ∧ c.body = b := by
  obtain ⟨w, rest, hclosing⟩ := exists_closing ht
  exact ⟨⟨form, lead, b, w⟩, rest, finish_eq_some_iff.2 ⟨t, hbody, hclosing, rfl, rfl⟩, rfl⟩

theorem isBlank_head?_opening (form : Form) :
    ∀ c, (form.opening ++ t).head? = some c → Text.isBlank c = false := by
  intro c hc
  cases form with
  | verbatim =>
    obtain rfl : '@' = c := Option.some.inj hc
    rfl
  | regular =>
    obtain rfl : '"' = c := Option.some.inj hc
    rfl

/-- Where a call stands one is read, and none with a shorter body. -/
theorem Written.exists_read? (hc : c.Written) (v : Text) :
    ∃ c' rest, read? (c.text ++ v) = some (c', rest) ∧ c.body.length ≤ c'.body.length := by
  obtain ⟨h, hh, hlead⟩ := hc.lead
  obtain ⟨w, -, htail⟩ := hc.tail
  have hbody := hc.body
  have hparen : ')' ∈ w ++ ')' :: v := List.mem_append_right _ List.mem_cons_self
  have htext : c.text ++ v = h ++ (c.form.opening ++ (c.body ++ '"' :: (w ++ ')' :: v))) := by
    simp only [text, hlead, htail, List.append_assoc, List.cons_append, List.nil_append]
  have hheader := header_append hh
    (isBlank_head?_opening (t := c.body ++ '"' :: (w ++ ')' :: v)) c.form)
  rw [← htext] at hheader
  simp only [read?, hheader, Option.bind_eq_bind, Option.bind_some]
  cases hform : c.form with
  | verbatim =>
    rw [hform] at hbody
    obtain ⟨b, t, hb, hle⟩ := verbatimBody_append hbody hparen
    obtain ⟨u, rfl, hu⟩ := (isVerbatimBody_of_verbatimBody hb).2
    obtain ⟨c', rest, hfinish, rfl⟩ := exists_finish hb (List.mem_cons_of_mem _ hu)
    exact ⟨c', rest, hfinish, hle⟩
  | regular =>
    rw [hform] at hbody
    have hb := regularBody_append hbody hparen
    obtain ⟨c', rest, hfinish, hc'⟩ := exists_finish hb (List.mem_cons_of_mem _ hparen)
    exact ⟨c', rest, hfinish, Nat.le_of_eq (congrArg List.length hc'.symm)⟩

structure OccursAt (c : Call) (i : Nat) (line : Text) : Prop where
  written : c.Written
  place : c.text <+: line.drop i

theorem OccursAt.lt_length {line : Text} (h : c.OccursAt i line) : i < line.length := by
  have hne : line.drop i ≠ [] :=
    fun hnil => h.written.text_ne_nil (List.prefix_nil.1 (hnil ▸ h.place))
  rwa [ne_eq, List.drop_eq_nil_iff, Nat.not_le] at hne

/-- Calls of a line from left to right, the first of them from index `k` on. Each begins where a
call first begins at or behind the end of the one before, and behind the last none begins. -/
inductive Succession (line : Text) : Nat → List (Nat × Call) → Prop where
  | done {k : Nat} (h : ∀ i c, k ≤ i → ¬ OccursAt c i line) : Succession line k []
  | next {k i : Nat} {c : Call} {cs : List (Nat × Call)} (hk : k ≤ i) (hc : c.OccursAt i line)
    (hfirst : ∀ i' c', k ≤ i' → OccursAt c' i' line → i ≤ i')
    (hrest : Succession line (i + c.text.length) cs) : Succession line k ((i, c) :: cs)

theorem occursAt_of_read? (h : read? s = some (c, rest)) : c.OccursAt u.length (u ++ s) := by
  refine ⟨written_of_read? h, ?_⟩
  rw [List.drop_left, append_of_read? h]
  exact List.prefix_append _ _

theorem not_occursAt_of_read? (h : read? s = none) : ¬ c.OccursAt u.length (u ++ s) := by
  rintro ⟨hc, hplace⟩
  rw [List.drop_left] at hplace
  obtain ⟨v, rfl⟩ := hplace
  obtain ⟨c', rest, hread, -⟩ := hc.exists_read? v
  rw [h] at hread
  cases hread

/-- Where no call begins the search can as well start one character later. -/
theorem Succession.of_succ {line : Text} {cs : List (Nat × Call)}
    (hk : ∀ c, ¬ OccursAt c k line) (h : Succession line (k + 1) cs) : Succession line k cs := by
  have hlater : ∀ i c, k ≤ i → OccursAt c i line → k + 1 ≤ i := by
    intro i c hi hc
    rcases Nat.eq_or_lt_of_le hi with rfl | hi
    · exact absurd hc (hk c)
    · exact hi
  cases h with
  | done h => exact .done fun i c hi hc => h i c (hlater i c hi hc) hc
  | next hi hc hfirst hrest =>
    exact .next (Nat.le_of_succ_le hi) hc (fun i c hi hc => hfirst i c (hlater i c hi hc) hc) hrest

theorem succession_allFrom (u s : Text) : Succession (u ++ s) u.length (allFrom u.length s) := by
  -- By induction on the search, with `u` for all that it has come past.
  generalize hk : u.length = k
  fun_induction allFrom k s generalizing u with
  | case1 k s c rest h ih =>
    subst hk
    have hs := append_of_read? h
    refine .next (Nat.le_refl _) (occursAt_of_read? h) (fun i _ hi _ => hi) ?_
    rw [hs, ← List.append_assoc]
    exact ih (u ++ c.text) List.length_append
  | case2 k h =>
    subst hk
    refine .of_succ (fun c => not_occursAt_of_read? h) (.done fun i c hi hc => ?_)
    have hlt := hc.lt_length
    rw [List.append_nil] at hlt
    omega
  | case3 k d s h ih =>
    subst hk
    refine .of_succ (fun c => not_occursAt_of_read? h) ?_
    have hd := ih (u ++ [d]) List.length_append
    rwa [List.append_assoc] at hd

/-- The patterns of a line are the bodies of its calls from left to right, each call the first that
begins at or behind the end of the one before. -/
theorem patterns_of_succession (line : Text) : ∃ cs : List (Nat × Call), Succession line 0 cs ∧
    patterns line = cs.map fun (i, c) => ⟨i + c.lead.length, c.body⟩ :=
  ⟨allFrom 0 line, succession_allFrom [] line, rfl⟩

end PatternAnatomy.Call
