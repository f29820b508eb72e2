import PatternAnatomy.Proofs.Grammar.Commitment
import PatternAnatomy.Proofs.Node.Splice

namespace PatternAnatomy.Grammar

open Node

variable {m m' : Stage} {s t u : Place} {r v w x y z : Text} {Z : Text → Prop}

/-- At one stage of the reader, each of the texts `Z` can stand behind `v`, and some brackets behind
it end the pattern. Without a `v`, the texts do not make a range of a bracket in front of them. -/
structure Admits (m : Stage) (v : Text) (Z : Text → Prop) : Prop where
  head : v = [] → ∀ z, Z z → z.head? ≠ some '-'
  completes : ∃ j, ∀ z w, Z z → w.Closes →
    Completes m (v ++ (z ++ (List.replicate j ')' ++ w))) w

theorem admits_of_completes (hhead : v = [] → z.head? ≠ some '-')
    (h : ∀ w : Text, w.Closes → Completes m (v ++ (z ++ w)) w) : Admits m v (· = z) where
  head hv z' hz' := hz' ▸ hhead hv
  completes := by
    refine ⟨0, ?_⟩
    rintro z' w rfl hw
    exact h w hw

theorem admits_nil (m : Stage) : Admits m [] (· = ['.']) :=
  admits_of_completes (by simp) fun _ hw => .character (.inl rfl) (.stop (by simp) hw)

namespace Admits

theorem behind (hne : v ≠ []) (hstep : ∀ y w, Completes m' y w → Completes m (v ++ y) w)
    (h : Admits m' z Z) : Admits m (v ++ z) Z where
  head hv := absurd (List.append_eq_nil_iff.1 hv).1 hne
  completes := by
    obtain ⟨j, hj⟩ := h.completes
    refine ⟨j, fun x w hx hw => ?_⟩
    rw [List.append_assoc]
    exact hstep _ _ (hj x w hx hw)

theorem filled_of_ready (h : Admits .ready v Z) : Admits .filled v Z where
  head := h.head
  completes := by
    obtain ⟨j, hj⟩ := h.completes
    exact ⟨j, fun z w hz hw => (hj z w hz hw).filled_of_ready⟩

/-- Inside a group one more bracket has to close. -/
theorem in_group {nonCapturing : Bool} {name : Option Text} (hname : ∀ x ∈ name, IsName x)
    (h : Admits .ready v Z) : Admits m ('(' :: groupHeader nonCapturing name ++ v) Z where
  head hv := by simp at hv
  completes := by
    obtain ⟨j, hj⟩ := h.completes
    refine ⟨j + 1, fun z w hz hw => ?_⟩
    have hin := hj z (')' :: w) hz (by simp [Text.Closes])
    rw [List.append_assoc, List.replicate_succ', List.append_assoc]
    exact .group hname hin (.stop (by simp) hw)

theorem closing {nonCapturing : Bool} {name : Option Text} (hname : ∀ x ∈ name, IsName x)
    (h : Admits .ready v (· = [])) :
    Admits m ('(' :: groupHeader nonCapturing name ++ v) (· = [')']) where
  head hno := by simp at hno
  completes := by
    obtain ⟨j, hj⟩ := h.completes
    refine ⟨j, ?_⟩
    rintro z w rfl hw
    have hin := hj [] (')' :: w) rfl (by simp [Text.Closes])
    have hgroup : Completes m ('(' :: groupHeader nonCapturing name ++
        (v ++ (List.replicate j ')' ++ ')' :: w))) w :=
      .group hname hin (.stop (by simp) hw)
    have hbrackets : List.replicate j ')' ++ ')' :: w = [')'] ++ (List.replicate j ')' ++ w) := by
      rw [← List.singleton_append, ← List.append_assoc, ← List.replicate_succ',
        List.replicate_succ, List.cons_append]
      rfl
    rw [List.append_assoc, ← hbrackets]
    exact hgroup

theorem of_concat {e : Char} (h : Admits m (v ++ [e]) (· = z)) (he : v = [] → e ≠ '-') :
    Admits m v (· = e :: z) where
  head hv _ hz := by
    rw [hz]
    simpa using he hv
  completes := by
    obtain ⟨j, hj⟩ := h.completes
    refine ⟨j, ?_⟩
    rintro _ w rfl hw
    simpa using hj z w rfl hw

end Admits

theorem admits_header {nonCapturing : Bool} {name : Option Text} (hname : ∀ x ∈ name, IsName x)
    (h : v ++ z = groupHeader nonCapturing name) : Admits m ('(' :: v) (· = z ++ [')']) := by
  apply admits_of_completes (by simp)
  intro w hw
  have hgroup : Completes m ('(' :: groupHeader nonCapturing name ++ ')' :: w) w :=
    .group hname (.stop (by simp) (by simp)) (.stop (by simp) hw)
  rw [← h] at hgroup
  simpa using hgroup

theorem admits_repetition : Admits .filled [] fun z => ∃ r, Repetition.Written r z where
  head := by
    rintro - z ⟨r, hr⟩ hz
    obtain ⟨c, hc, hsig, -⟩ := hr.head?
    rw [hz, Option.some.injEq] at hc
    exact absurd (hc ▸ hsig) (by decide)
  completes := by
    refine ⟨0, ?_⟩
    rintro z w ⟨r, hr⟩ hw
    have hend : Completes .ready w w := .stop (by simp) hw
    simpa using hend.quantifier hr

theorem admits_of_written {r : Repetition} (h : r.Written (v ++ z)) : Admits .filled v (· = z) := by
  apply admits_of_completes
  · rintro rfl
    exact admits_repetition.head rfl z ⟨r, h⟩
  · intro w hw
    rw [← List.append_assoc]
    exact .quantifier h (.stop (by simp) hw)

/-- A character list that begins so need not have ended yet. -/
inductive ListOpen : Text → Prop where
  | nil : ListOpen []
  | one {c : Char} : ListOpen [c]
  | dash {c : Char} : ListOpen [c, '-']
  | range {a b : Char} {v : Text} (h : ListOpen v) : ListOpen (a :: '-' :: b :: v)
  | single {c d : Char} {v : Text} (hc : c ≠ ']') (hd : d ≠ '-') (h : ListOpen (d :: v)) :
    ListOpen (c :: d :: v)

theorem ListOpen.scans (h : ListOpen v) : ∃ c z, (v = [] → c ≠ '^') ∧ ∀ w : Text, w.Closes →
    behindItem (v ++ (c :: z ++ w)) ≠ none ∧ Scans (v ++ (c :: z ++ w)) (']' :: w) := by
  have hend : ∀ w : Text, w.Closes → Scans (']' :: w) (']' :: w) := fun w hw =>
    .stop (behindItem_bracket (Text.not_opensRange_of_head? (hw.head?_ne (by decide))))
  induction h with
  | nil =>
    refine ⟨'a', [']'], by simp, fun w hw => ?_⟩
    have hitem := behindItem_single (c := 'a') (d := ']') (by simp) (by simp) w
    exact ⟨by simp [hitem], .item hitem (hend w hw)⟩
  | one => exact ⟨'-', ['a', ']'], by simp, fun w hw => ⟨nofun, .item rfl (hend w hw)⟩⟩
  | dash => exact ⟨'a', [']'], by simp, fun w hw => ⟨nofun, .item rfl (hend w hw)⟩⟩
  | range _ ih =>
    obtain ⟨c, z, -, hz⟩ := ih
    exact ⟨c, z, by simp, fun w hw => ⟨nofun, .item rfl (hz w hw).2⟩⟩
  | @single _ _ v hb hd _ ih =>
    obtain ⟨c, z, -, hz⟩ := ih
    refine ⟨c, z, by simp, fun w hw => ?_⟩
    have hitem := behindItem_single hb hd (v ++ (c :: z ++ w))
    exact ⟨ne_of_eq_of_ne hitem nofun, .item hitem (hz w hw).2⟩

theorem behindCaret_append (h : v = [] → z.head? ≠ some '^') :
    behindCaret (v ++ z) = behindCaret v ++ z := by
  have hplain : ∀ x : Text, x.head? ≠ some '^' → behindCaret x = x := by
    intro x hx
    unfold behindCaret
    split
    · exact absurd rfl hx
    · rfl
  cases v with
  | nil => exact hplain z (h rfl)
  | cons c v =>
    by_cases hc : c = '^'
    · subst hc
      rfl
    · rw [hplain (c :: v) (by simpa using hc), hplain _ (by simpa using hc)]

theorem ListOpen.admits (h : ListOpen (behindCaret v)) : ∃ z, Admits m ('[' :: v) (· = z) := by
  obtain ⟨c, z, hc, hz⟩ := h.scans
  refine ⟨c :: z, admits_of_completes (by simp) fun w hw => ?_⟩
  have hcaret : behindCaret (v ++ (c :: z ++ w)) = behindCaret v ++ (c :: z ++ w) := by
    apply behindCaret_append
    rintro rfl
    simpa using hc rfl
  have hlist : ListReaches (v ++ (c :: z ++ w)) w := by
    rw [ListReaches, hcaret]
    exact hz w hw
  exact .charList hlist (.stop (by simp) hw)

theorem ListOpen.admits_opening {negated : Bool} {a : Place} {e : Char}
    (hcaret : negated = false → a.rest.head? ≠ some '^') (hx : a.Reads x u)
    (hl : ListOpen (x ++ [e])) (he : x = [] → e ≠ '^') :
    ∃ z, Admits m (opening negated ++ x) (· = e :: z) := by
  have hcaret' : negated = false → (x ++ [e]).head? ≠ some '^' := by
    intro hno
    cases x with
    | nil => simpa using he rfl
    | cons c x =>
      have hno := hcaret hno
      rwa [hx.head? (by simp)] at hno
  obtain ⟨v, hv, hbehind⟩ := behindCaret_opening hcaret'
  rw [← hbehind] at hl
  obtain ⟨z, hz⟩ := hl.admits (m := m)
  rw [← hv, ← List.append_assoc] at hz
  exact ⟨z, hz.of_concat (by cases negated <;> simp [opening])⟩

/-- In front of a character that a list can go on with, it can also have had any items. -/
theorem ListOpen.behind_items {is : List Item} {e : Char} (h : Item.SpelledAll is s t)
    (hv : t.Reads v u) (hl : ListOpen (v ++ [e])) (he : v = [] → e ≠ '^') :
    ∃ x, s.Reads x u ∧ ListOpen (x ++ [e]) ∧ (x = [] → e ≠ '^') := by
  induction h with
  | nil => exact ⟨v, hv, hl, he⟩
  | cons hi _ ih =>
    obtain ⟨x, hx, hl, -⟩ := ih hv
    cases hi with
    | range h => exact ⟨_, h.trans hx, .range hl, by simp⟩
    | @single s t c h hc hs =>
      refine ⟨c :: x, h.trans hx, ?_, by simp⟩
      rcases x with _ | ⟨d, x⟩
      · by_cases he : e = '-'
        · exact he ▸ .dash
        · exact .single hc he .one
      · by_cases hd : d = '-'
        · -- The dash makes no range, so that it is the last character of the text.
          subst hd
          rw [h.rest, hx.rest] at hs
          rcases x with _ | ⟨b, x⟩
          · exact .range .nil
          · exact absurd ⟨c, b, _, rfl⟩ hs
        · exact .single hc hd hl

/-- A closing bracket makes no range with another end of the text behind `v`, either, unless a dash
that was the last character of the text is so no longer. -/
theorem not_opensRange_append {c : Char} (h : ¬ Text.OpensRange (c :: (v ++ r)))
    (hlast : v = ['-'] → r ≠ []) (hhead : v = [] → y.head? ≠ some '-') :
    ¬ Text.OpensRange (c :: (v ++ y)) := by
  rw [Text.opensRange_cons] at h ⊢
  rintro ⟨b, w, hw⟩
  rcases v with _ | ⟨d, _ | ⟨e, v⟩⟩
  · exact hhead rfl (congrArg List.head? hw)
  · obtain rfl := (List.cons.inj hw).1
    obtain ⟨e, r, rfl⟩ := List.exists_cons_of_ne_nil (hlast rfl)
    exact h ⟨e, r, rfl⟩
  · obtain rfl := (List.cons.inj hw).1
    exact h ⟨e, v ++ r, rfl⟩

theorem completes_of_charList {is : List Item} {negated : Bool} {a b : Place} (hne : is ≠ [])
    (hcaret : negated = false → a.rest.head? ≠ some '^') (his : Item.SpelledAll is a b)
    (hx : a.Reads x b) (hb : b.rest = ']' :: r) (hrange : ¬ Text.OpensRange (']' :: y))
    (hy : Completes .filled y w) : Completes m (opening negated ++ (x ++ ']' :: y)) w := by
  have hr := Text.replaces_cons (c := ']') (by simp) y r
  have hbs : ']' :: r <:+ b.rest := hb ▸ List.suffix_refl _
  obtain ⟨js, rfl, hjs⟩ := his.spliced hr (Nat.zero_le _) hbs
  have hb' : (b.spliced 0 (']' :: r) (']' :: y)).rest = ']' :: y := Place.rest_spliced (v := []) hb
  have ha' : (a.spliced 0 (']' :: r) (']' :: y)).rest = x ++ ']' :: y :=
    Place.rest_spliced (hb ▸ hx.rest)
  have hcaret' : negated = false → (x ++ ']' :: y).head? ≠ some '^' := fun hno hc =>
    hcaret hno (hr.head_spliced (his.before.suffix hbs) (ha'.symm ▸ hc))
  obtain ⟨u, hu, -⟩ := behindCaret_opening hcaret'
  rw [hu]
  rw [← ha'] at hu hcaret'
  exact .charList (listReaches_of_spelledAll hu hcaret' (by rintro rfl; exact hne rfl) hjs
    (hb'.symm ▸ hrange) (.of_append (v := [']']) hb')) hy

theorem completes_of_group {cs : List Node} {nonCapturing : Bool} {name : Option Text} {a b : Place}
    (hname : ∀ w ∈ name, IsName w) (hcs : SpelledAll cs a b) (hx : a.Reads x b)
    (hb : b.rest = ')' :: r) (hy : Completes .filled y w) :
    Completes m ('(' :: groupHeader nonCapturing name ++ (x ++ ')' :: y)) w := by
  have hr := Text.replaces_cons (c := ')') (by simp) y r
  have hbs : ')' :: r <:+ b.rest := hb ▸ List.suffix_refl _
  obtain ⟨ms, rfl, hms⟩ := hcs.spliced hr (Nat.zero_le _) hbs
  have hin := hms.derives
  rw [Place.rest_spliced (hb ▸ hx.rest), Place.rest_spliced (v := []) hb] at hin
  exact .group hname (hin.completes _ (.stop (by simp) (by simp))) hy

theorem Admits.behind_charList {is : List Item} {negated : Bool} {a b : Place}
    (hne : is ≠ []) (hcaret : negated = false → a.rest.head? ≠ some '^')
    (his : Item.SpelledAll is a b) (hrange : ¬ b.rest.OpensRange) (hx : a.Reads x b)
    (hb : b.Reads [']'] t) (hv : t.Reads v u) (hlast : v = ['-'] → u.rest ≠ [])
    (h : Admits .filled v Z) : Admits m (opening negated ++ (x ++ ']' :: v)) Z where
  head hno := by simp at hno
  completes := by
    obtain ⟨j, hj⟩ := h.completes
    refine ⟨j, fun z w hz hw => ?_⟩
    have hclose : b.rest = ']' :: (v ++ u.rest) := hb.rest.trans (congrArg (']' :: ·) hv.rest)
    have hno : ¬ Text.OpensRange (']' :: (v ++ (z ++ (List.replicate j ')' ++ w)))) := by
      apply not_opensRange_append (hclose ▸ hrange) hlast
      intro hnil
      have hz' := h.head hnil z hz
      cases z with
      | nil => exact (Text.closes_replicate j hw).head?_ne (by decide)
      | cons => exact hz'
    simpa using completes_of_charList hne hcaret his hx hclose hno (hj z w hz hw)

end PatternAnatomy.Grammar
