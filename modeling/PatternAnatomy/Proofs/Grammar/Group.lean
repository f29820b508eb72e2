import PatternAnatomy.Grammar
import PatternAnatomy.Proofs.Reading.Acceptance

namespace PatternAnatomy.Grammar

open Reader

def IsName (name : Text) : Prop := name ≠ [] ∧ '>' ∉ name

def nameHeader : Option Text → Text
  | none => []
  | some name => '?' :: '<' :: name ++ ['>']

/-- What stands between the bracket that opens a group and the pattern inside. -/
def groupHeader (nonCapturing : Bool) (name : Option Text) : Text :=
  (if nonCapturing then ['?', ':'] else []) ++ nameHeader name

theorem drop_groupHeader {nonCapturing : Bool} {name : Option Text} {r : Text} :
    (groupHeader nonCapturing name ++ r).drop (if nonCapturing then 2 else 0) =
      nameHeader name ++ r := by
  cases nonCapturing <;> rfl

/-- What stands behind the bracket that opens a group tells whether the group captures. -/
theorem nonCapturing_iff {nonCapturing : Bool} {name : Option Text} {r : Text}
    (hr : r.head? ≠ some '?') :
    nonCapturing = true ↔ ['?', ':'] <+: groupHeader nonCapturing name ++ r := by
  cases nonCapturing with
  | true => simp [groupHeader]
  | false =>
    cases name with
    | some w => simp [groupHeader, nameHeader]
    | none => simpa [groupHeader, nameHeader] using Text.not_cons_prefix hr

/-- What stands behind the mark of a group that does not capture tells the name of the group. -/
theorem name_eq_some_iff {name : Option Text} {r w : Text} (hname : ∀ v ∈ name, IsName v)
    (hr : r.head? ≠ some '?') :
    name = some w ↔ '>' ∉ w ∧ nameHeader (some w) <+: nameHeader name ++ r := by
  constructor
  · rintro rfl
    exact ⟨(hname w rfl).2, List.prefix_append _ _⟩
  · rintro ⟨hw, hpre⟩
    cases name with
    | none => exact absurd hpre (Text.not_cons_prefix hr)
    | some v =>
      obtain ⟨r', h⟩ := hpre
      have hv := (hname v rfl).2
      -- Both names are runs up to the first closing bracket behind the same place.
      have heq : v ++ '>' :: r = w ++ '>' :: r' := by simpa [nameHeader] using h.symm
      have hplain : ∀ {x : Text}, '>' ∉ x → ∀ c ∈ x, (c != '>') = true := by
        rintro x hx c hc
        simp only [bne_iff_ne, ne_eq]
        rintro rfl
        exact hx hc
      rw [Text.run_unique (hplain hv) (hplain hw) (by simp) (by simp) heq]

theorem groupHeader_append_cancel {a b : Bool} {v w : Option Text} {r r' : Text}
    (hv : ∀ x ∈ v, IsName x) (hw : ∀ x ∈ w, IsName x) (hr : r.head? ≠ some '?')
    (hr' : r'.head? ≠ some '?') (h : groupHeader a v ++ r = groupHeader b w ++ r') : r = r' := by
  have hmarker : a = b := Bool.eq_iff_iff.2 (by rw [nonCapturing_iff hr, h, ← nonCapturing_iff hr'])
  subst hmarker
  have hname : nameHeader v ++ r = nameHeader w ++ r' := by
    have hdrop := congrArg (List.drop (if a then 2 else 0)) h
    rwa [drop_groupHeader, drop_groupHeader] at hdrop
  have hsame : v = w := Option.ext fun x => by
    rw [name_eq_some_iff hv hr, hname, ← name_eq_some_iff hw hr']
  exact List.append_cancel_left (hsame ▸ hname)

variable {P : Reader (List Node)} {n : Node} {s t : Place}

theorem accepts_groupName {name : Text} : groupName.Accepts s name t ↔
    IsName name ∧ s.Reads (nameHeader (some name)) t := by
  simp only [groupName, runExcept, charExcept, accepts_within, accepts_bind, accepts_exactly,
    accepts_many1_satisfying, accepts_char, accepts_pure, decide_eq_true_eq,
    decide_eq_false_iff_not, not_not]
  constructor
  · rintro ⟨_, a, ha, w, b, ⟨hne, hb, hw, -⟩, _, c, hc, rfl, rfl⟩
    exact ⟨⟨hne, fun hmem => hw _ hmem rfl⟩, by simpa [nameHeader] using ha.trans (hb.trans hc)⟩
  · rintro ⟨⟨hne, hw⟩, h⟩
    have h : s.Reads (['?', '<'] ++ (name ++ ['>'])) t := h
    obtain ⟨a, ha, h⟩ := Place.Reads.append_iff.1 h
    obtain ⟨b, hb, hc⟩ := Place.Reads.append_iff.1 h
    refine ⟨(), a, ha, name, b, ⟨hne, hb, ?_, by simp [hc.rest]⟩, (), t, hc, rfl, rfl⟩
    rintro c hmem rfl
    exact hw hmem

theorem accepts_group (h : (group P).Accepts s n t) : ∃ cs nonCapturing name a b,
    s.Reads ('(' :: groupHeader nonCapturing name) a ∧ (∀ w ∈ name, IsName w) ∧ P.Accepts a cs b ∧
      b.Reads [')'] t ∧ n = .group cs nonCapturing name (.between s.offset t.offset) := by
  simp only [group, accepts_within, accepts_spanned, accepts_bind, accepts_char, accepts_optional,
    accepts_exactly, accepts_groupName, accepts_pure] at h
  obtain ⟨_, ⟨_, a, ha, marker, b, hmarker, name, c, hname, cs, d, hcs, _, _, hd, rfl, rfl⟩, rfl⟩ :=
    h
  have hb : a.Reads (if marker.isSome then ['?', ':'] else []) b := by
    rcases hmarker with ⟨_, rfl, hb⟩ | ⟨rfl, rfl, -⟩
    · exact hb
    · exact .refl b
  have hc : b.Reads (nameHeader name) c ∧ ∀ w ∈ name, IsName w := by
    rcases hname with ⟨w, rfl, hw, hc⟩ | ⟨rfl, rfl, -⟩
    · exact ⟨hc, by simpa using hw⟩
    · exact ⟨.refl c, by simp⟩
  exact ⟨cs, marker.isSome, name, c, d, ha.trans (hb.trans hc.1), hc.2, hcs, hd, rfl⟩

/-- Headers are taken where they stand, so that a pattern inside need only not begin like one. -/
theorem group_accepts {nonCapturing : Bool} {name : Option Text} {cs : List Node} {a b : Place}
    (ha : s.Reads ('(' :: groupHeader nonCapturing name) a) (hname : ∀ w ∈ name, IsName w)
    (hq : a.rest.head? ≠ some '?') (hcs : P.Accepts a cs b) (hb : b.Reads [')'] t) :
    (group P).Accepts s (.group cs nonCapturing name (.between s.offset t.offset)) t := by
  obtain ⟨c, hc, ha⟩ := Place.Reads.cons_iff.1 ha
  have hheader : c.rest = groupHeader nonCapturing name ++ a.rest := ha.rest
  obtain ⟨d, hd, ha⟩ := Place.Reads.append_iff.1 ha
  have hmarker : (optional (exactly ['?', ':'])).Accepts c (if nonCapturing then some () else none)
      d := by
    rw [accepts_optional]
    cases nonCapturing with
    | true => exact .inl ⟨(), rfl, accepts_exactly.2 hd⟩
    | false =>
      have hno : ¬ ['?', ':'] <+: c.rest := by
        rw [hheader, ← nonCapturing_iff hq]
        exact Bool.false_ne_true
      exact .inr ⟨rfl, Place.Reads.nil_iff.1 hd, refuses_exactly.2 hno⟩
  have hname : (optional groupName).Accepts d name a := by
    rw [accepts_optional]
    cases name with
    | some w => exact .inl ⟨w, rfl, accepts_groupName.2 ⟨hname w rfl, ha⟩⟩
    | none =>
      obtain rfl := Place.Reads.nil_iff.1 ha
      refine .inr ⟨rfl, rfl, refuses_iff.2 ?_⟩
      intro w t hw
      have hr := (accepts_groupName.1 hw).2.rest
      exact hq (by rw [hr]; rfl)
  have hsome : (if nonCapturing then some () else none).isSome = nonCapturing := by
    cases nonCapturing <;> rfl
  simp only [group, accepts_within, accepts_spanned, accepts_bind, accepts_char, accepts_pure]
  refine ⟨_, ⟨(), c, hc, _, d, hmarker, name, a, hname, cs, b, hcs, (), t, hb, rfl, rfl⟩, ?_⟩
  rw [hsome]

end PatternAnatomy.Grammar
