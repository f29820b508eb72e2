import Mathlib.Logic.Function.Basic
import PatternAnatomy.Palette

namespace PatternAnatomy

variable {c d : Category} {fill : Fill} {t : Text} {texts : Category → Text} {p q : Palette}
  {entries : List (Category × Text)} {e : ColorError}

namespace Text

/-- A name of several words that begin with capitals, with underscores between words in lower
case. -/
def underscored : Text → Text
  | [] => []
  | c :: cs => c.toLower :: cs.flatMap fun d => if d.isUpper then ['_', d.toLower] else [d]

end Text

namespace Category

theorem nodup_all : all.Nodup := by decide

/-- A category has its text under the key that says its name. -/
theorem key_eq_underscored (c : Category) : c.key = Text.underscored c.name := by
  cases c <;> decide

end Category

namespace Fill

theorem parse?_eq_plain_iff : parse? t = some plain ↔ saysNone t.trimmed = true := by
  by_cases h : saysNone t.trimmed = true
  · exact iff_of_true (if_pos h) h
  · refine iff_of_false ?_ h
    simp only [parse?, if_neg h]
    split <;> simp

theorem color?_eq_none_iff : fill.color? = none ↔ fill = plain := by
  cases fill <;> simp [color?]

end Fill

namespace Palette

theorem add_self (p : Palette) (c : Category) (fill : Fill) :
    p.add c fill c = fill.color?.or (p c) := by
  cases fill with
  | plain => rfl
  | color color => exact if_pos rfl

theorem add_of_ne (h : d ≠ c) : p.add c fill d = p d := by
  cases fill with
  | plain => rfl
  | color color => exact if_neg h

theorem addAll_cons_of_some (h : Fill.parse? t = some fill) :
    p.addAll ((c, t) :: entries) = (p.add c fill).addAll entries := by
  rw [addAll, h]

theorem addAll_cons_of_none (h : Fill.parse? t = none) :
    p.addAll ((c, t) :: entries) = .error ⟨c, t⟩ := by
  rw [addAll, h]

/-- The first entry that asks for no color is told, and nothing behind it is read. -/
theorem addAll_eq_error_iff : p.addAll entries = .error e ↔ ∃ before after,
    entries = before ++ (e.category, e.value) :: after ∧
      (∀ x ∈ before, Fill.parse? x.2 ≠ none) ∧ Fill.parse? e.value = none := by
  induction entries generalizing p with
  | nil => simp [addAll]
  | cons x entries ih =>
    obtain ⟨c, t⟩ := x
    cases h : Fill.parse? t with
    | some fill =>
      rw [addAll_cons_of_some h, ih]
      constructor
      · rintro ⟨before, after, rfl, hbefore, hno⟩
        have hsome : Fill.parse? t ≠ none := h ▸ Option.some_ne_none fill
        exact ⟨(c, t) :: before, after, rfl, List.forall_mem_cons.2 ⟨hsome, hbefore⟩, hno⟩
      · rintro ⟨before, after, hentries, hbefore, hno⟩
        cases before with
        | nil =>
          obtain ⟨hx, -⟩ := List.cons.inj hentries
          rw [← (Prod.mk.inj hx).2, h] at hno
          cases hno
        | cons x before =>
          exact ⟨before, after, (List.cons.inj hentries).2, (List.forall_mem_cons.1 hbefore).2, hno⟩
    | none =>
      rw [addAll_cons_of_none h]
      constructor
      · intro he
        obtain rfl := Except.error.inj he
        exact ⟨[], entries, rfl, fun _ hx => absurd hx List.not_mem_nil, h⟩
      · rintro ⟨before, after, hentries, hbefore, hno⟩
        cases before with
        | nil =>
          obtain ⟨hc, ht⟩ := Prod.mk.inj (List.cons.inj hentries).1
          rw [hc, ht]
        | cons x before =>
          obtain ⟨rfl, -⟩ := List.cons.inj hentries
          exact absurd h (hbefore _ List.mem_cons_self)

theorem exists_addAll_iff :
    (∃ q, p.addAll entries = .ok q) ↔ ∀ x ∈ entries, Fill.parse? x.2 ≠ none := by
  induction entries generalizing p with
  | nil => simp [addAll]
  | cons x entries ih =>
    obtain ⟨c, t⟩ := x
    rw [List.forall_mem_cons]
    cases h : Fill.parse? t with
    | some fill => rw [addAll_cons_of_some h, ih, and_iff_right (Option.some_ne_none fill)]
    | none =>
      rw [addAll_cons_of_none h]
      exact iff_of_false (fun ⟨q, hq⟩ => by cases hq) fun hall => hall.1 rfl

theorem addAll_of_not_mem (h : p.addAll entries = .ok q) (hc : c ∉ entries.map Prod.fst) :
    q c = p c := by
  induction entries generalizing p with
  | nil => exact congrFun (Except.ok.inj h).symm c
  | cons x entries ih =>
    obtain ⟨d, t⟩ := x
    obtain ⟨hne, hc⟩ := not_or.1 (mt List.mem_cons.2 hc)
    cases ht : Fill.parse? t with
    | some fill =>
      rw [addAll_cons_of_some ht] at h
      rw [ih h hc, add_of_ne hne]
    | none =>
      rw [addAll_cons_of_none ht] at h
      cases h

theorem addAll_of_mem (h : p.addAll entries = .ok q) (hnodup : (entries.map Prod.fst).Nodup)
    (hc : (c, t) ∈ entries) : ∃ fill, Fill.parse? t = some fill ∧ q c = fill.color?.or (p c) := by
  induction entries generalizing p with
  | nil => exact absurd hc List.not_mem_nil
  | cons x entries ih =>
    obtain ⟨d, u⟩ := x
    obtain ⟨hd, hnodup⟩ := List.nodup_cons.1 hnodup
    cases hu : Fill.parse? u with
    | some fill =>
      rw [addAll_cons_of_some hu] at h
      rcases List.mem_cons.1 hc with heq | hmem
      · obtain ⟨rfl, rfl⟩ := Prod.mk.inj heq
        exact ⟨fill, hu, by rw [addAll_of_not_mem h hd, add_self]⟩
      · -- The category of the first entry does not come again.
        have hne : c ≠ d := by
          rintro rfl
          exact hd (List.mem_map.2 ⟨_, hmem, rfl⟩)
        have hsame : p.add d fill c = p c := add_of_ne hne
        rw [← hsame]
        exact ih h hnodup hmem
    | none =>
      rw [addAll_cons_of_none hu] at h
      cases h

theorem exists_ofTexts_iff : (∃ p, ofTexts texts = .ok p) ↔ ∀ c, Fill.parse? (texts c) ≠ none := by
  rw [ofTexts, exists_addAll_iff, List.forall_mem_map]
  exact ⟨fun h c => h c c.mem_all, fun h c _ => h c⟩

theorem ofTexts_eq_error_iff : ofTexts texts = .error e ↔ ∃ before after,
    Category.all = before ++ e.category :: after ∧
      (∀ c ∈ before, Fill.parse? (texts c) ≠ none) ∧ Fill.parse? (texts e.category) = none ∧
      e.value = texts e.category := by
  rw [ofTexts, addAll_eq_error_iff]
  constructor
  · rintro ⟨entries, rest, hall, hbefore, hno⟩
    obtain ⟨before, after', hcats, rfl, hrest⟩ := List.map_eq_append_iff.1 hall
    obtain ⟨c, after, rfl, hc, -⟩ := List.map_eq_cons_iff.1 hrest
    obtain ⟨rfl, hvalue⟩ := Prod.mk.inj hc
    refine ⟨before, after, hcats, ?_, hvalue ▸ hno, hvalue.symm⟩
    intro d hd
    exact hbefore _ (List.mem_map_of_mem hd)
  · rintro ⟨before, after, hcats, hbefore, hno, hvalue⟩
    refine ⟨before.map fun c => (c, texts c), after.map fun c => (c, texts c), ?_, ?_, ?_⟩
    · rw [hcats, List.map_append, List.map_cons, hvalue]
    · exact List.forall_mem_map.2 hbefore
    · rw [hvalue]
      exact hno

theorem parse?_of_ofTexts (h : ofTexts texts = .ok p) (c : Category) :
    ∃ fill, Fill.parse? (texts c) = some fill ∧ p c = fill.color? := by
  have hcats : (Category.all.map fun c => (c, texts c)).map Prod.fst = Category.all := by
    rw [List.map_map]
    exact List.map_id _
  obtain ⟨fill, hfill, hp⟩ :=
    addAll_of_mem h (hcats ▸ Category.nodup_all) (List.mem_map_of_mem c.mem_all)
  exact ⟨fill, hfill, hp.trans (Option.or_none)⟩

/-- A palette comes of the texts of the categories just when each of them asks for something, and
else the first that does not is told. Each kind then has the color that the text of its own category
asks for, so that another text for one category can change only the kinds of that category. -/
theorem ofTexts_resolves (texts : Category → Text) :
    ((∃ p, ofTexts texts = .ok p) ↔ ∀ c, Fill.parse? (texts c) ≠ none) ∧
    (∀ e, ofTexts texts = .error e ↔ ∃ before after, Category.all = before ++ e.category :: after ∧
      (∀ c ∈ before, Fill.parse? (texts c) ≠ none) ∧ Fill.parse? (texts e.category) = none ∧
      e.value = texts e.category) ∧
    (∀ p, ofTexts texts = .ok p → ∀ kind,
      (∃ fill, Fill.parse? (texts kind.category) = some fill ∧ p.colorOf kind = fill.color?) ∧
      (p.colorOf kind = none ↔ Fill.saysNone (texts kind.category).trimmed = true)) ∧
    (∀ p c t q, ofTexts texts = .ok p → ofTexts (Function.update texts c t) = .ok q → ∀ kind,
      q.colorOf kind ≠ p.colorOf kind → kind.category = c) ∧
    ∀ c : Category, c.key = Text.underscored c.name := by
  refine ⟨exists_ofTexts_iff, fun e => ofTexts_eq_error_iff, ?_, ?_, Category.key_eq_underscored⟩
  · intro p hp kind
    obtain ⟨fill, hfill, hcolor⟩ := parse?_of_ofTexts hp kind.category
    refine ⟨⟨fill, hfill, hcolor⟩, ?_⟩
    rw [colorOf, hcolor, Fill.color?_eq_none_iff, ← Fill.parse?_eq_plain_iff, hfill,
      Option.some_inj]
  · intro p c t q hp hq kind hchange
    by_contra hne
    -- The category of the kind has the same text in both, which both read alike.
    obtain ⟨fill, hfill, hcolor⟩ := parse?_of_ofTexts hp kind.category
    obtain ⟨fill', hfill', hcolor'⟩ := parse?_of_ofTexts hq kind.category
    rw [Function.update_of_ne hne, hfill, Option.some_inj] at hfill'
    exact hchange (by rw [colorOf, colorOf, hcolor, hcolor', hfill'])

/-- All categories are plain but for groups; then escapes are given a color, too. -/
theorem ofTexts_resolves_escape : ∃ (texts : Category → Text) (p q : Palette),
    texts = (fun c => if c = .group then "Red ".toList else " NONE".toList) ∧
    ofTexts texts = .ok p ∧ ofTexts (Function.update texts .escape "#0a0B0c".toList) = .ok q ∧
    (∀ kind, p.colorOf kind = none ↔ Fill.saysNone (texts kind.category).trimmed = true) ∧
    ∀ kind, q.colorOf kind ≠ p.colorOf kind → kind.category = .escape := by
  obtain ⟨texts, htexts⟩ : ∃ texts : Category → Text,
    texts = fun c => if c = .group then "Red ".toList else " NONE".toList := ⟨_, rfl⟩
  have hplain : ∀ c, Fill.parse? (texts c) ≠ none := by
    intro c
    rw [htexts]
    cases c <;> decide
  have hchanged : ∀ c, Fill.parse? (Function.update texts .escape "#0a0B0c".toList c) ≠ none := by
    intro c
    rw [htexts]
    cases c <;> decide
  obtain ⟨p, hp⟩ := (ofTexts_resolves texts).1.2 hplain
  obtain ⟨q, hq⟩ := (ofTexts_resolves (Function.update texts .escape "#0a0B0c".toList)).1.2 hchanged
  obtain ⟨-, -, hcolors, hchange, -⟩ := ofTexts_resolves texts
  exact ⟨texts, p, q, htexts, hp, hq, fun kind => (hcolors p hp kind).2,
    hchange p .escape "#0a0B0c".toList q hp hq⟩

/-- Of two texts that are no colors the one of the category that is read first is told. -/
example : ofTexts (fun c => if c = .escape then "#12345".toList else
    if c = .anyChar then "rot".toList else "none".toList) = .error ⟨.anyChar, "rot".toList⟩ := by
  rfl

end Palette

end PatternAnatomy
