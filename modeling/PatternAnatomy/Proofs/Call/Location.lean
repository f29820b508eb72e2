import PatternAnatomy.Proofs.Call.Occurrence
import PatternAnatomy.Proofs.Text.Bytes

namespace PatternAnatomy

variable {s t line source : Text} {c : Char} {i k n : Nat}

namespace Text

/-- The text has `line` behind its first `n` line feeds, up to the next or to its end; a carriage
return before a line feed belongs to no line. -/
def IsLine (source : Text) (n : Nat) (line : Text) : Prop :=
  ∃ before behind, source = before ++ (line ++ behind) ∧ before.count '\n' = n ∧
    (before = [] ∨ before.getLast? = some '\n') ∧ '\n' ∉ line ∧
    (behind = [] ∨ ['\r', '\n'] <+: behind ∨
      ['\n'] <+: behind ∧ line.getLast? ≠ some '\r')

theorem lines_eq_nil_iff : lines s = [] ↔ s = [] := by
  fun_induction lines s with
  | case1 => simp
  | case2 => simp
  | case3 => simp
  | case4 => simp
  | case5 => simp

namespace IsLine

/-- A line feed in front, with a carriage return or without, makes every line the next one. -/
theorem behind_feed (hlast : t.getLast? = some '\n') (hcount : t.count '\n' = 1)
    (h : IsLine s n line) : IsLine (t ++ s) (n + 1) line := by
  obtain ⟨before, behind, rfl, hcount', hlast', hline, hbehind⟩ := h
  refine ⟨t ++ before, behind, (List.append_assoc ..).symm, ?_, .inr ?_, hline, hbehind⟩
  · rw [List.count_append, hcount, hcount', Nat.add_comm]
  · rcases hlast' with rfl | hlast'
    · rwa [List.append_nil]
    · rw [List.getLast?_append, hlast', Option.some_or]

theorem behind_char (hc : c ≠ '\n') (h : IsLine s (n + 1) line) : IsLine (c :: s) (n + 1) line := by
  obtain ⟨before, behind, rfl, hcount, hlast, hline, hbehind⟩ := h
  refine ⟨c :: before, behind, rfl, ?_, .inr ?_, hline, hbehind⟩
  · rw [List.count_cons_of_ne hc, hcount]
  · rcases hlast with rfl | hlast
    · cases hcount
    · rw [List.getLast?_cons, hlast, Option.getD_some]

/-- A character in front belongs to the first line, unless it is a carriage return before its
end. -/
theorem cons (hc : c ≠ '\n') (hr : ∀ r, c = '\r' → s = '\n' :: r → False)
    (h : IsLine s 0 line) : IsLine (c :: s) 0 (c :: line) := by
  obtain ⟨before, behind, rfl, hcount, hlast, hline, hbehind⟩ := h
  obtain rfl : before = [] := hlast.resolve_right fun hlast =>
    List.count_eq_zero.1 hcount (List.mem_of_getLast? hlast)
  refine ⟨[], behind, rfl, rfl, .inl rfl, ?_, hbehind.imp_right (.imp_right ?_)⟩
  · rw [List.mem_cons, not_or]
    exact ⟨Ne.symm hc, hline⟩
  · rintro ⟨hfeed, hreturn⟩
    refine ⟨hfeed, ?_⟩
    obtain ⟨r, rfl⟩ := hfeed
    rw [List.getLast?_cons]
    cases hl : line.getLast? with
    | none =>
      obtain rfl := List.getLast?_eq_none_iff.1 hl
      exact fun h => hr r (Option.some.inj h) rfl
    | some d => rwa [hl] at hreturn

end IsLine

theorem isLine_of_lines (h : source.lines[n]? = some line) : source.IsLine n line := by
  fun_induction lines source generalizing n line with
  | case1 => cases h
  | case2 cs ih =>
    cases n with
    | zero =>
      obtain rfl : [] = line := Option.some.inj h
      exact ⟨[], '\n' :: cs, rfl, rfl, .inl rfl, List.not_mem_nil, .inr (.inr ⟨⟨cs, rfl⟩, nofun⟩)⟩
    | succ n => exact (ih h).behind_feed (t := ['\n']) rfl rfl
  | case3 cs ih =>
    cases n with
    | zero =>
      obtain rfl : [] = line := Option.some.inj h
      exact ⟨[], '\r' :: '\n' :: cs, rfl, rfl, .inl rfl, List.not_mem_nil, .inr (.inl ⟨cs, rfl⟩)⟩
    | succ n => exact (ih h).behind_feed (t := ['\r', '\n']) rfl rfl
  | case4 c cs hc _ hnil _ =>
    obtain rfl := lines_eq_nil_iff.1 hnil
    cases n with
    | zero =>
      obtain rfl : [c] = line := Option.some.inj h
      exact ⟨[], [], rfl, rfl, .inl rfl, fun h => hc (List.mem_singleton.1 h).symm, .inl rfl⟩
    | succ n => cases h
  | case5 c cs hc hr l ls hlines ih =>
    rw [hlines] at ih
    cases n with
    | zero =>
      obtain rfl : c :: l = line := Option.some.inj h
      exact (ih (n := 0) rfl).cons hc hr
    | succ n => exact (ih (n := n + 1) h).behind_char hc

end Text

namespace Call

variable {c : Call} {cs : List (Nat × Call)}

/-- The pattern stands in the line behind as many characters as its column says, between two quotes;
the column is the same when it is counted from the byte that the pattern begins at. -/
structure Found.PointsInto (f : Found) (t : Text) : Prop where
  pattern : (t.drop f.column).take f.pattern.length = f.pattern
  before : 0 < f.column ∧ t[f.column - 1]? = some '"'
  behind : t[f.column + f.pattern.length]? = some '"'
  byte : t.indexOfByte? (Text.byteLength (t.take f.column)) = some f.column

theorem Found.pointsInto_append (u t v : Text) :
    PointsInto ⟨u.length + 1, t⟩ (u ++ '"' :: (t ++ '"' :: v)) := by
  have hdrop : (u ++ '"' :: (t ++ '"' :: v)).drop (u.length + 1) = t ++ '"' :: v := by
    rw [← List.drop_drop, List.drop_left, List.drop_succ_cons, List.drop_zero]
  have htake := List.take_append_drop (u.length + 1) (u ++ '"' :: (t ++ '"' :: v))
  refine ⟨?_, ⟨Nat.succ_pos _, ?_⟩, ?_, ?_⟩
  · rw [hdrop, List.take_left]
  · rw [Nat.add_sub_cancel, List.getElem?_append_right (Nat.le_refl _), Nat.sub_self]
    rfl
  · rw [← List.getElem?_drop, hdrop, List.getElem?_append_right (Nat.le_refl _), Nat.sub_self]
    rfl
  · have hlength : ((u ++ '"' :: (t ++ '"' :: v)).take (u.length + 1)).length = u.length + 1 := by
      simp
    have hindex := Text.indexOfByte?_byteLength ((u ++ '"' :: (t ++ '"' :: v)).take (u.length + 1))
      ((u ++ '"' :: (t ++ '"' :: v)).drop (u.length + 1))
    rwa [htake, hlength] at hindex

theorem Form.exists_opening (form : Form) : ∃ t, form.opening = t ++ ['"'] := by
  cases form with
  | verbatim => exact ⟨['@'], rfl⟩
  | regular => exact ⟨[], rfl⟩

theorem OccursAt.pointsInto (h : c.OccursAt i line) :
    (Found.mk (i + c.lead.length) c.body).PointsInto line := by
  obtain ⟨⟨t, -, hlead⟩, -, w, -, htail⟩ := h.written
  obtain ⟨o, ho⟩ := c.form.exists_opening
  obtain ⟨v, hv⟩ := h.place
  have hcolumn : i + c.lead.length = (line.take i ++ (t ++ o)).length + 1 := by
    rw [hlead, ho, List.length_append, List.length_append, List.length_append, List.length_append,
      List.length_take_of_le (Nat.le_of_lt h.lt_length), List.length_singleton]
    omega
  have hline : line.take i ++ (t ++ o) ++ '"' :: (c.body ++ '"' :: (w ++ ')' :: v)) = line := by
    have htext := List.take_append_drop i line
    rw [← hv, text, hlead, ho, htail] at htext
    simpa only [List.append_assoc, List.cons_append, List.nil_append] using htext
  have hpoints := Found.pointsInto_append (line.take i ++ (t ++ o)) c.body (w ++ ')' :: v)
  rwa [← hcolumn, hline] at hpoints

theorem Succession.occursAt (h : Succession line k cs) :
    ∀ x ∈ cs, k ≤ x.1 ∧ x.2.OccursAt x.1 line := by
  induction h with
  | done => simp
  | @next k i c cs hk hc _ _ ih =>
    intro x hx
    rcases List.mem_cons.1 hx with rfl | hx
    · exact ⟨hk, hc⟩
    · obtain ⟨hle, hx⟩ := ih x hx
      exact ⟨by omega, hx⟩

theorem Succession.pairwise (h : Succession line k cs) :
    cs.Pairwise fun x y => x.1 + x.2.text.length ≤ y.1 := by
  induction h with
  | done => exact .nil
  | next _ _ _ hrest ih => exact .cons (fun y hy => (hrest.occursAt y hy).1) ih

theorem OccursAt.stop_lt (h : c.OccursAt i line) :
    i + c.lead.length + c.body.length < i + c.text.length := by
  obtain ⟨w, -, htail⟩ := h.written.tail
  rw [text, htail]
  simp only [List.length_append, List.length_cons]
  omega

theorem pointsInto_of_mem_patterns {f : Found} (hf : f ∈ patterns line) : f.PointsInto line := by
  obtain ⟨⟨i, c⟩, hc, rfl⟩ := List.mem_map.1 hf
  exact ((succession_allFrom [] line).occursAt _ hc).2.pointsInto

theorem pairwise_patterns (line : Text) :
    (patterns line).Pairwise fun f g => f.column + f.pattern.length < g.column := by
  have hall : Succession line 0 (allFrom 0 line) := succession_allFrom [] line
  rw [patterns, List.pairwise_map]
  refine hall.pairwise.imp_of_mem fun {x y} hx _ hle => ?_
  have hlt := (hall.occursAt x hx).2.stop_lt
  simp only [found]
  omega

theorem pairwise_patternsOfLines (source : Text) :
    (patternsOfLines source).Pairwise fun (m, f) (n, g) =>
      m < n ∨ m = n ∧ f.column + f.pattern.length < g.column := by
  rw [patternsOfLines, List.pairwise_flatMap]
  constructor
  · rintro ⟨line, n⟩ -
    rw [List.pairwise_map]
    exact (pairwise_patterns line).imp fun h => .inr ⟨rfl, h⟩
  · have hnumbers : (source.lines.zipIdx.map Prod.snd).Pairwise (· < ·) := by
      rw [List.zipIdx_map_snd]
      exact List.pairwise_lt_range'
    refine (List.pairwise_map.1 hnumbers).imp fun {x y} hlt => ?_
    intro a ha b hb
    obtain ⟨f, -, rfl⟩ := List.mem_map.1 ha
    obtain ⟨g, -, rfl⟩ := List.mem_map.1 hb
    exact .inl hlt

theorem exists_line_of_mem_patternsOfLines {f : Found} (hf : (n, f) ∈ patternsOfLines source) :
    ∃ line, source.IsLine n line ∧ f ∈ patterns line := by
  simp only [patternsOfLines, List.mem_flatMap, List.mem_map] at hf
  obtain ⟨⟨line, m⟩, hline, g, hg, heq⟩ := hf
  obtain ⟨rfl, rfl⟩ := Prod.mk.inj heq
  exact ⟨line, Text.isLine_of_lines (List.mem_zipIdx_iff_getElem?.1 hline), hg⟩

/-- Found patterns stand where their columns say, in the order of their columns and apart from each
other; those of a text stand so in the lines they are told with, and come in the order of these. -/
theorem patterns_point_into_text :
    (∀ line, (∀ f ∈ patterns line, f.PointsInto line) ∧
      (patterns line).Pairwise fun f g => f.column + f.pattern.length < g.column) ∧
    ∀ source, (∀ n f, (n, f) ∈ patternsOfLines source →
        ∃ line, source.IsLine n line ∧ f ∈ patterns line ∧ f.PointsInto line) ∧
      (patternsOfLines source).Pairwise fun (m, f) (n, g) =>
        m < n ∨ m = n ∧ f.column + f.pattern.length < g.column := by
  refine ⟨fun line => ⟨fun f => pointsInto_of_mem_patterns, pairwise_patterns line⟩, ?_⟩
  refine fun source => ⟨fun n f hf => ?_, pairwise_patternsOfLines source⟩
  obtain ⟨line, hline, hf⟩ := exists_line_of_mem_patternsOfLines hf
  exact ⟨line, hline, hf, pointsInto_of_mem_patterns hf⟩

theorem patterns_point_into_second_line :
    (1, ⟨18, "é\\\"b".toList⟩) ∈ patternsOfLines "é\r\n/*é*/ new Regex (\"é\\\"b\", x)".toList ∧
      ∃ line, Text.IsLine "é\r\n/*é*/ new Regex (\"é\\\"b\", x)".toList 1 line ∧
        ⟨18, "é\\\"b".toList⟩ ∈ patterns line ∧
        Found.PointsInto ⟨18, "é\\\"b".toList⟩ line := by
  have hmem : (1, ⟨18, "é\\\"b".toList⟩) ∈
      patternsOfLines "é\r\n/*é*/ new Regex (\"é\\\"b\", x)".toList := by
    decide +kernel
  exact ⟨hmem, (patterns_point_into_text.2 _).1 _ _ hmem⟩

end Call

end PatternAnatomy
