import PatternAnatomy.Proofs.Grammar.Blockage
import PatternAnatomy.Proofs.Grammar.Foresight

namespace PatternAnatomy

open Grammar

/-- At the offset `k`, the digits of a repetition count begin that is 2^32 or more. It is the count
of a quantifier, since there any other repetition could stand behind `v`. -/
def OverlongCount (p : Text) (k : Nat) : Prop :=
  ∃ v es ds r, p = v ++ '{' :: es ++ ds ++ r ∧ k = (v ++ '{' :: es).length ∧
    (es = [] ∨ ∃ cs, Repetition.IsCount cs ∧ es = cs ++ [',']) ∧
    ds ≠ [] ∧ (∀ d ∈ ds, d.isDigit = true) ∧ (∀ c, r.head? = some c → c.isDigit = false) ∧
    Nat.pow 2 32 ≤ digitsValue ds ∧
    ∃ j, ∀ q z, Repetition.Written q z →
      ∃ nodes, parse (v ++ z ++ List.replicate j ')') = .ok nodes

variable {p q v : Text} {f : Failure} {o : Obstacle}

theorem exists_parse_of_admits {Z : Text → Prop} (h : Admits .ready v Z) :
    ∃ j, ∀ z, Z z → ∃ nodes, parse (v ++ z ++ List.replicate j ')') = .ok nodes := by
  obtain ⟨j, hj⟩ := h.completes
  refine ⟨j, fun z hz => exists_parse_iff_completes.2 ?_⟩
  simpa using hj z [] hz (by simp [Text.Closes])

/-- No pattern begins with more of the text than the reader got through. -/
theorem parse_ne_ok_of_stuck (h : whole (.start p) = .stuck o) (ho : o.reach < p.length)
    (hq : p.take (o.reach + 1) <+: q) (nodes : List Node) : parse q ≠ .ok nodes := by
  intro hok
  obtain ⟨y, rfl⟩ := hq
  have hle := le_extent_whole (x := p.drop (o.reach + 1)) (exists_parse_iff_completes.1 ⟨_, hok⟩)
  rw [List.take_append_drop, h, List.length_take] at hle
  have hreach : (Outcome.stuck o : Outcome (List Node)).extent = o.reach := rfl
  omega

theorem overlongCount_of_reads {es ds : Text} {u b c : Place} (hv : (Place.start p).Reads v u)
    (hrep : Admits .ready v fun z => ∃ r, Repetition.Written r z) (hb : u.Reads ('{' :: es) b)
    (hes : es = [] ∨ ∃ cs, Repetition.IsCount cs ∧ es = cs ++ [','])
    (hds : digits.Accepts b ds c) (hlarge : Nat.pow 2 32 ≤ digitsValue ds) :
    OverlongCount p b.offset := by
  obtain ⟨hne, hr, hdigits, hend⟩ := accepts_digits.1 hds
  obtain ⟨j, hj⟩ := exists_parse_of_admits hrep
  have hp : p = v ++ '{' :: es ++ ds ++ c.rest := ((hv.trans hb).trans hr).rest
  have hk : b.offset = (v ++ '{' :: es).length := by simpa [Place.start] using (hv.trans hb).offset
  exact ⟨v, es, ds, c.rest, hp, hk, hes, hne, hdigits, hend, hlarge, j, fun q z hz => hj z ⟨q, hz⟩⟩

theorem exists_parse_of_count {es : Text}
    (hrep : Admits .ready v fun z => ∃ r, Repetition.Written r z)
    (hes : es = [] ∨ ∃ cs, Repetition.IsCount cs ∧ es = cs ++ [',']) :
    ∃ z nodes, parse (v ++ '{' :: es ++ z) = .ok nodes := by
  obtain ⟨j, hj⟩ := exists_parse_of_admits hrep
  obtain ⟨q, z, hq⟩ : ∃ q z, Repetition.Written q ('{' :: es ++ z) := by
    rcases hes with rfl | ⟨cs, hcs, rfl⟩
    · exact ⟨_, [',', '}'], .braces Repetition.isCount_nil Repetition.isCount_nil⟩
    · exact ⟨_, ['}'], by simpa using Repetition.Written.braces hcs Repetition.isCount_nil⟩
  obtain ⟨nodes, hnodes⟩ := hj _ ⟨q, hq⟩
  exact ⟨z ++ List.replicate j ')', nodes, by simpa using hnodes⟩

/-- A failure tells exactly how much of the text could be read. -/
theorem parse_error_position (h : parse p = .error f) :
    f.position ≤ p.length ∧ (∃ z nodes, parse (p.take f.position ++ z) = .ok nodes) ∧
      (f.position < p.length → ¬ OverlongCount p f.position →
        ∀ q, p.take (f.position + 1) <+: q → ∀ nodes, parse q ≠ .ok nodes) := by
  obtain ⟨o, ho, rfl⟩ := parse_eq_error_iff.1 h
  have hblocked : Blocked .ready (.start p) o.stop :=
    blocked_of_whole (by rw [Reader.Stops, ho]; rfl)
  have htake : ∀ {v : Text} {u : Place}, (Place.start p).Reads v u →
      u.offset ≤ p.length ∧ p.take u.offset = v := by
    intro v u hv
    have hp : p = v ++ u.rest := hv.rest
    have hu : u.offset = v.length := by simpa [Place.start] using hv.offset
    rw [hu, hp]
    exact ⟨by simp, by simp⟩
  generalize hx : o.stop = x at hblocked
  cases hblocked with
  | @character v z u hv hz =>
    obtain ⟨hreach, hposition, -⟩ := Stop.mk.inj hx
    obtain ⟨hle, hprefix⟩ := htake hv
    obtain ⟨j, hj⟩ := exists_parse_of_admits hz
    obtain ⟨nodes, hnodes⟩ := hj z rfl
    have hfailure : o.failure.position = u.offset := hposition
    rw [hfailure, hprefix]
    refine ⟨hle, ⟨_, nodes, by simpa using hnodes⟩, fun hlt _ q hq => ?_⟩
    rw [← hreach] at hlt hq
    exact parse_ne_ok_of_stuck ho hlt hq
  | @count v es ds u b c hv hrep hb hes hds hlarge =>
    obtain ⟨-, hposition, -⟩ := Stop.mk.inj hx
    obtain ⟨hle, hprefix⟩ := htake (hv.trans hb)
    have hfailure : o.failure.position = b.offset := hposition
    rw [hfailure, hprefix]
    exact ⟨hle, exists_parse_of_count hrep hes, fun _ hno =>
      absurd (overlongCount_of_reads hv hrep hb hes hds hlarge) hno⟩

theorem parse_error_position_bracket_in_list : ∃ f, parse "[]a".toList = .error f ∧
    f.position = 2 ∧ ∀ q, "[]a".toList <+: q → ∀ nodes, parse q ≠ .ok nodes := by
  have h : parse "[]a".toList = .error ⟨"unexpected 'a' while parsing range".toList, 2,
      ["'-'".toList, "range".toList]⟩ := by
    decide +kernel
  refine ⟨_, h, rfl, (parse_error_position h).2.2 (by decide) ?_⟩
  rintro ⟨v, es, ds, r, hp, -⟩
  have hbrace : '{' ∉ "[]a".toList := by decide
  exact hbrace (hp ▸ by simp)

end PatternAnatomy
