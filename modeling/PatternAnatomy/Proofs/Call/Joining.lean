import PatternAnatomy.Proofs.Call.Location

namespace PatternAnatomy

variable {s t u v b r rest : Text} {c : Char} {l : Text} {ls ms : List Text} {k : Nat}

namespace Text

theorem lines_cons (hc : c ≠ '\n') (hr : ∀ r, c = '\r' → s = '\n' :: r → False)
    (h : lines s = l :: ls) : lines (c :: s) = (c :: l) :: ls := by
  rw [lines, h]
  · exact hc
  · exact hr

theorem lines_cons_feed (hc : c ≠ '\n') (hr : c ≠ '\r') (t : Text) :
    lines (c :: '\n' :: t) = [c] :: lines t :=
  lines_cons hc (fun _ h => absurd h hr) rfl

/-- What a text does not begin with it does not begin with when more is behind it. -/
theorem ne_cons_append {q : Prop} (h : ∀ r, q → s = c :: r → False) (hs : s ≠ []) (t : Text) :
    ∀ r, q → s ++ t = c :: r → False := by
  obtain ⟨d, s, rfl⟩ := List.exists_cons_of_ne_nil hs
  intro r hq hd
  obtain ⟨rfl, -⟩ := List.cons.inj hd
  exact h s hq rfl

theorem ne_nil_of_lines_eq_cons (h : lines s = l :: ls) : s ≠ [] := by
  rintro rfl
  cases h

theorem exists_lines_feed (s : Text) : ∃ l ls, lines (s ++ ['\n']) = l :: ls :=
  List.exists_cons_of_ne_nil
    (mt lines_eq_nil_iff.1 (List.append_ne_nil_of_right_ne_nil s (List.cons_ne_nil '\n' [])))

theorem lines_append_feed (s t : Text) :
    lines (s ++ '\n' :: t) = lines (s ++ ['\n']) ++ lines t := by
  fun_induction lines s with
  | case1 => rfl
  | case2 s ih => exact congrArg ([] :: ·) ih
  | case3 s ih => exact congrArg ([] :: ·) ih
  | case4 c s hc _ hnil _ =>
    obtain rfl := lines_eq_nil_iff.1 hnil
    by_cases hreturn : c = '\r'
    · subst hreturn
      rfl
    · show lines (c :: '\n' :: t) = lines [c, '\n'] ++ lines t
      rw [lines_cons_feed hc hreturn, lines_cons_feed hc hreturn]
      rfl
  | case5 c s hc hr l ls hlines ih =>
    have hs := ne_nil_of_lines_eq_cons hlines
    obtain ⟨m, ms, hm⟩ := exists_lines_feed s
    rw [hm] at ih
    rw [List.cons_append, List.cons_append, lines_cons hc (ne_cons_append hr hs _) hm]
    exact lines_cons hc (ne_cons_append hr hs _) ih

theorem length_lines_feed (s : Text) : (lines (s ++ ['\n'])).length = s.count '\n' + 1 := by
  fun_induction lines s with
  | case1 => rfl
  | case2 s ih =>
    rw [List.count_cons_self]
    exact congrArg (· + 1) ih
  | case3 s ih =>
    rw [List.count_cons_of_ne (by decide), List.count_cons_self]
    exact congrArg (· + 1) ih
  | case4 c s hc _ hnil _ =>
    obtain rfl := lines_eq_nil_iff.1 hnil
    rw [List.count_cons_of_ne hc, List.count_nil]
    by_cases hreturn : c = '\r'
    · subst hreturn
      rfl
    · exact congrArg List.length (lines_cons_feed hc hreturn [])
  | case5 c s hc hr l ls hlines ih =>
    have hs := ne_nil_of_lines_eq_cons hlines
    obtain ⟨m, ms, hm⟩ := exists_lines_feed s
    rw [hm] at ih
    rw [List.cons_append, lines_cons hc (ne_cons_append hr hs _) hm, List.count_cons_of_ne hc]
    exact ih

/-- What a line feed behind a text does to its lines: the last one loses a carriage return or stays
as it is, or there is an empty one more. -/
inductive Fed : List Text → List Text → Prop where
  | blank : Fed [] [[]]
  | same (l : Text) : Fed [l] [l]
  | cut (l : Text) : Fed [l ++ ['\r']] [l]
  | cons (l : Text) {ls ms : List Text} (h : Fed ls ms) : Fed (l :: ls) (l :: ms)

theorem fed_lines (s : Text) : Fed (lines s) (lines (s ++ ['\n'])) := by
  fun_induction lines s with
  | case1 => exact .blank
  | case2 s ih => exact .cons [] ih
  | case3 s ih => exact .cons [] ih
  | case4 c s hc _ hnil _ =>
    obtain rfl := lines_eq_nil_iff.1 hnil
    by_cases hreturn : c = '\r'
    · subst hreturn
      exact .cut []
    · have hfeed : lines ([c] ++ ['\n']) = [[c]] := lines_cons_feed hc hreturn []
      exact hfeed ▸ .same [c]
  | case5 c s hc hr l ls hlines ih =>
    have hs := ne_nil_of_lines_eq_cons hlines
    rw [hlines] at ih
    generalize hms : lines (s ++ ['\n']) = ms at ih
    have hcons : ∀ {m ms'}, ms = m :: ms' → lines (c :: (s ++ ['\n'])) = (c :: m) :: ms' :=
      fun h => lines_cons hc (ne_cons_append hr hs _) (hms.trans h)
    rw [List.cons_append]
    cases ih with
    | same => exact hcons rfl ▸ .same (c :: l)
    | cut l => exact hcons rfl ▸ .cut (c :: l)
    | cons _ h => exact hcons rfl ▸ .cons (c :: l) h

end Text

namespace Call

theorem exists_of_append_eq (ht : c ∉ t) (h : s ++ t = u ++ c :: v) :
    ∃ w, s = u ++ c :: w ∧ v = w ++ t := by
  rcases List.append_eq_append_iff.1 h with ⟨w, rfl, rfl⟩ | ⟨w, rfl, hw⟩
  · exact absurd (List.mem_append_right w List.mem_cons_self) ht
  · cases w with
    | nil =>
      obtain rfl : c :: v = t := hw
      exact absurd List.mem_cons_self ht
    | cons d w =>
      obtain ⟨rfl, rfl⟩ := List.cons.inj hw
      exact ⟨w, rfl, rfl⟩

/-- The splitter takes no notice of `t` behind its text. -/
def Splitter.Ignores (p : Splitter) (t : Text) : Prop :=
  ∀ s, p (s ++ t) = (p s).map fun x => (x.1, x.2 ++ t)

theorem verbatimBody_eq_none (ht : ')' ∉ t) : verbatimBody t = none := by
  refine Option.eq_none_iff_forall_not_mem.2 fun (b, r) h => ?_
  obtain ⟨-, u, rfl, hu⟩ := isVerbatimBody_of_verbatimBody h
  exact ht (splits_verbatimBody _ _ _ h ▸ List.mem_append_right b (List.mem_cons_of_mem _ hu))

theorem regularBody_eq_none (ht : ')' ∉ t) : regularBody t = none := by
  refine Option.eq_none_iff_forall_not_mem.2 fun (b, r) h => ?_
  obtain ⟨-, u, rfl, hu⟩ := isRegularBody_of_regularBody h
  exact ht (splits_regularBody _ _ _ h ▸ List.mem_append_right b (List.mem_cons_of_mem _ hu))

theorem ignores_verbatimBody (ht : ')' ∉ t) : verbatimBody.Ignores t := by
  intro s
  fun_induction verbatimBody s with
  | case1 => exact verbatimBody_eq_none ht
  | case2 s b r h ih =>
    rw [List.cons_append, List.cons_append, verbatimBody, ih, h]
    rfl
  | case3 s h hs ih =>
    rw [List.cons_append, List.cons_append, verbatimBody, ih, h]
    exact if_pos (List.mem_append_left t hs)
  | case4 s h hs ih =>
    rw [List.cons_append, List.cons_append, verbatimBody, ih, h]
    exact if_neg (by simp [hs, ht])
  | case5 s hs hno =>
    have hne : s ≠ [] := List.ne_nil_of_mem hs
    rw [List.cons_append, verbatimBody, if_pos rfl, if_pos (List.mem_append_left t hs)]
    · rfl
    · exact Text.ne_cons_append hno hne t
  | case6 s hs _ => exact verbatimBody_eq_none (by simp [hs, ht])
  | case7 c s _ hc ih =>
    rw [List.cons_append, verbatimBody, if_neg hc, ih, Option.map_map, Option.map_map]
    · rfl
    · exact fun _ h _ => hc h

theorem ignores_regularBody (ht : ')' ∉ t) : regularBody.Ignores t := by
  intro s
  fun_induction regularBody s with
  | case1 => exact regularBody_eq_none ht
  | case2 => rfl
  | case3 c s hc ih =>
    rw [List.cons_append, List.cons_append, regularBody, if_neg hc, ih, Option.map_map,
      Option.map_map]
    rfl
  | case4 s hs _ =>
    rw [List.cons_append, regularBody, if_pos rfl, if_pos (List.mem_append_left t hs)]
    · rfl
    · exact fun _ _ h => absurd h (by decide)
  | case5 s hs _ => exact regularBody_eq_none (by simp [hs, ht])
  | case6 s hno _ =>
    -- Only at the end of the text does nothing follow a backslash.
    have hnil : s = [] := by
      cases s with
      | nil => rfl
      | cons c s => exact absurd rfl (hno c s rfl)
    subst hnil
    exact regularBody_eq_none (by simp [ht])
  | case7 c s _ hq hb ih =>
    rw [List.cons_append, regularBody, if_neg hq, if_neg hb, ih, Option.map_map, Option.map_map]
    · rfl
    · exact fun _ _ h => absurd h hb

theorem ignores_closing (ht : ')' ∉ t) : closing.Ignores t := by
  intro s
  induction s with
  | nil =>
    refine Option.eq_none_iff_forall_not_mem.2 fun (w, r) h => ?_
    obtain ⟨w, -, -, rfl⟩ := closing_eq_some_iff.1 h
    exact ht (List.mem_append_right w List.mem_cons_self)
  | cons c s ih =>
    rw [List.cons_append, closing, closing, ih]
    split
    · rfl
    · rw [Option.map_map, Option.map_map]
      rfl

theorem ignores_finish {form : Form} {lead : Text} {body : Splitter} (hbody : body.Ignores t)
    (ht : ')' ∉ t) (s : Text) :
    finish form lead body (s ++ t) = (finish form lead body s).map fun x => (x.1, x.2 ++ t) := by
  unfold finish
  rw [hbody s]
  cases body s with
  | none => rfl
  | some x =>
    show (closing (x.2 ++ t)).bind _ = ((closing x.2).bind _).map _
    rw [ignores_closing ht x.2]
    cases closing x.2 <;> rfl

/-- Where no call begins none does with more text behind that has no parenthesis to close it. -/
theorem read?_behind (ht : ')' ∉ t) (s : Text) :
    read? (s ++ t) = (read? s).map fun x => (x.1, x.2 ++ t) := by
  cases hs : read? s with
  | none =>
    refine Option.eq_none_iff_forall_not_mem.2 fun (c, rest) h => ?_
    have hc := written_of_read? h
    obtain ⟨w, -, htail⟩ := hc.tail
    have hsplit : s ++ t = (c.lead ++ c.body ++ '"' :: w) ++ ')' :: rest := by
      rw [append_of_read? h, text, htail]
      simp only [List.append_assoc, List.cons_append, List.nil_append]
    obtain ⟨r, rfl, -⟩ := exists_of_append_eq ht hsplit
    obtain ⟨c', rest', hread, -⟩ := hc.exists_read? r
    rw [text, htail] at hread
    simp only [List.append_assoc, List.cons_append, List.nil_append] at hread hs
    rw [hs] at hread
    cases hread
  | some x =>
    simp only [read?, Option.bind_eq_bind, Option.bind_eq_some_iff, Prod.exists] at hs
    obtain ⟨lead, u, hheader, hs⟩ := hs
    have hlead := isHeader_of_header hheader
    obtain rfl := splits_header _ _ _ hheader
    have hopening : ∀ (form : Form) (r : Text), u = form.opening ++ r →
        header (lead ++ u ++ t) = some (lead, u ++ t) := by
      rintro form r rfl
      rw [List.append_assoc, List.append_assoc]
      exact header_append hlead (isBlank_head?_opening form)
    split at hs
    · next r =>
      simp only [read?, hopening .verbatim r rfl, Option.bind_eq_bind, Option.bind_some]
      exact (ignores_finish (ignores_verbatimBody ht) ht r).trans (congrArg _ hs)
    · next r =>
      simp only [read?, hopening .regular r rfl, Option.bind_eq_bind, Option.bind_some]
      exact (ignores_finish (ignores_regularBody ht) ht r).trans (congrArg _ hs)
    · cases hs

theorem allFrom_eq_nil (ht : ')' ∉ t) (k : Nat) : allFrom k t = [] := by
  have hnone : ∀ t, ')' ∉ t → read? t = none := fun t ht => read?_behind ht []
  induction t generalizing k with
  | nil =>
    rw [allFrom]
    split
    next h => rw [hnone [] ht] at h; cases h
    next => rfl
  | cons c t ih =>
    rw [allFrom]
    split
    next h => rw [hnone _ ht] at h; cases h
    next => exact ih (fun h => ht (List.mem_cons_of_mem c h)) _

/-- A text without a closing parenthesis adds no call to a line and changes none. -/
theorem allFrom_behind (ht : ')' ∉ t) (k : Nat) (s : Text) : allFrom k (s ++ t) = allFrom k s := by
  fun_induction allFrom k s with
  | case1 k s c rest h ih =>
    rw [allFrom]
    split
    next c' rest' h' =>
      rw [read?_behind ht, h] at h'
      obtain ⟨rfl, rfl⟩ := Prod.mk.inj (Option.some.inj h')
      rw [ih]
    next h' =>
      rw [read?_behind ht, h] at h'
      cases h'
  | case2 k => exact allFrom_eq_nil ht k
  | case3 k c s h ih =>
    rw [List.cons_append, allFrom]
    split
    next c' rest' h' =>
      rw [← List.cons_append, read?_behind ht, h] at h'
      cases h'
    next => exact ih

theorem patterns_behind (ht : ')' ∉ t) (line : Text) : patterns (line ++ t) = patterns line :=
  congrArg (List.map _) (allFrom_behind ht 0 line)

/-- The patterns of some lines, the first of which is the line `k` of its text. -/
def patternsFrom (k : Nat) (ls : List Text) : List (Nat × Found) :=
  (ls.zipIdx k).flatMap fun (line, i) => (patterns line).map fun f => (i, f)

theorem patternsFrom_cons (k : Nat) (l : Text) (ls : List Text) :
    patternsFrom k (l :: ls) = (patterns l).map (fun f => (k, f)) ++ patternsFrom (k + 1) ls := rfl

theorem patternsFrom_append (k : Nat) (ls ms : List Text) :
    patternsFrom k (ls ++ ms) = patternsFrom k ls ++ patternsFrom (k + ls.length) ms := by
  rw [patternsFrom, List.zipIdx_append, List.flatMap_append]
  rfl

theorem patternsFrom_add (k n : Nat) (ls : List Text) :
    patternsFrom (k + n) ls = (patternsFrom k ls).map fun (i, f) => (i + n, f) := by
  induction ls generalizing k with
  | nil => rfl
  | cons l ls ih =>
    rw [patternsFrom_cons, patternsFrom_cons, List.map_append, List.map_map, ← ih,
      Nat.add_right_comm]
    rfl

theorem patternsFrom_fed (h : Text.Fed ls ms) (k : Nat) :
    patternsFrom k ms = patternsFrom k ls := by
  -- Only the last line is another one, and what it loses or gains stands behind every call.
  induction h generalizing k with
  | blank =>
    have hnone : patterns [] = [] := congrArg (List.map _) (allFrom_eq_nil List.not_mem_nil 0)
    rw [patternsFrom_cons, hnone]
    rfl
  | same => rfl
  | cut l => rw [patternsFrom_cons, patternsFrom_cons, patterns_behind (by decide)]
  | cons l _ ih => rw [patternsFrom_cons, patternsFrom_cons, ih]

/-- The patterns of two texts that a line feed joins are those of the first, and those of the
second as many lines later as line feeds stand before it. -/
theorem patternsOfLines_append_feed (a b : Text) : patternsOfLines (a ++ '\n' :: b) =
    patternsOfLines a ++ (patternsOfLines b).map fun (i, f) => (i + (1 + a.count '\n'), f) :=
  calc patternsOfLines (a ++ '\n' :: b)
    _ = patternsFrom 0 ((a ++ ['\n']).lines ++ b.lines) :=
        congrArg (patternsFrom 0) (Text.lines_append_feed a b)
    _ = patternsFrom 0 (a ++ ['\n']).lines ++ patternsFrom (0 + (1 + a.count '\n')) b.lines := by
        rw [patternsFrom_append, Text.length_lines_feed, Nat.add_comm 1]
    _ = patternsFrom 0 a.lines ++ (patternsFrom 0 b.lines).map fun (i, f) =>
          (i + (1 + a.count '\n'), f) := by
        rw [patternsFrom_fed (Text.fed_lines a), patternsFrom_add]

end Call

end PatternAnatomy
