import PatternAnatomy.Proofs.Grammar.Standing

namespace PatternAnatomy.Grammar

open Reader Node

variable {m : Stage} {s t u : Place} {v z : Text} {x : Report}

/-- A stop on the way from `s` on, where the reader is at stage `m`. -/
inductive Blocked (m : Stage) (s : Place) : Stop → Prop where
  /-- The characters up to the stop begin a pattern. -/
  | character {v z : Text} {u : Place} (hv : s.Reads v u) (hz : Admits m v (· = z)) :
    Blocked m s u.stop
  /-- Any repetition could stand where the one with the large count does. -/
  | count {v es ds : Text} {u b c : Place} (hv : s.Reads v u)
      (hrep : Admits m v fun z => ∃ r, Repetition.Written r z) (hb : u.Reads ('{' :: es) b)
      (hes : es = [] ∨ ∃ cs, Repetition.IsCount cs ∧ es = cs ++ [','])
      (hds : digits.Accepts b ds c) (hlarge : Nat.pow 2 32 ≤ digitsValue ds) :
    Blocked m s ⟨c.offset, b.offset, .countTooLarge ds, none⟩

theorem Known.blocked {y : Stop} (h : Known m s (.stop y)) : Blocked m s y := by
  cases h with
  | stop h =>
    cases h with
    | admits hv h => exact .character hv h
    | runsOn _ h =>
      obtain ⟨v, z, hv, h⟩ := h 'a'
      exact .character hv h
  | count hrep hb hes hds hlarge =>
    cases hrep with
    | admits hv h => exact .count hv h hb hes hds hlarge
    | runsOn hend =>
      have hbrace := hb.rest
      rw [hend] at hbrace
      cases hbrace

theorem leads_anyCharacter (m : Stage) : Leads m anyCharacter .filled :=
  .within (by decide) (.spanned (.bind (.char (by decide) (fun _ _ => .character (.inl rfl))
    fun _ => .behind_character (.inl rfl)) fun _ => .pure _ _))

theorem leads_escape (m : Stage) : Leads m escape .filled :=
  .within (by decide) (.spanned (.bind (.char (by decide) (fun _ _ => .character (.inr (.inl rfl)))
    fun _ => .behind_character (.inr rfl)) fun _ => .pure _ _))

theorem leads_verbatim (m : Stage) : Leads m verbatim .filled where
  tells s x h := by
    refine .of_within (by decide) h fun h => ?_
    rcases tells_bind (tells_spanned h) with h | ⟨v, t, -, h⟩
    · obtain ⟨v, t, hv, rfl⟩ := tells_many1_satisfying h
      obtain ⟨hr, hplain, -⟩ := repeats_satisfying.1 hv
      by_cases hne : v = []
      · subst hne
        obtain rfl := Place.Reads.nil_iff.1 hr
        exact .stop (.here m t)
      · refine .stop (.admits hr (admits_of_completes (z := []) (by simp) fun w hw => ?_))
        exact .verbatim (by simpa using hplain) hne (.stop (by simp) hw)
    · exact absurd h (not_tells_pure _)
  carries s n t h := by
    obtain ⟨v, hne, hr, hplain, hend, rfl⟩ := accepts_verbatim.1 h
    have hspelled := Spelled.verbatim hne hr hplain hend
    exact .behind hr hne (fun y w => .verbatim hplain hne) fun w u hw hd =>
      hd.behind_atom hspelled trivial hr hw

/-- Where an item is looked for, some character that a list can go on with is missed. -/
theorem tells_item (h : item.Tells s x) : x = .within .range ∨
    ∃ v e u, ListOpen (v ++ [e]) ∧ (v = [] → e ≠ '^') ∧ s.Reads v u ∧ u.Misses (some e) x := by
  rcases tells_orElse h with h | h
  · rcases tells_within h with h | rfl
    swap
    · exact .inl rfl
    right
    rcases tells_bind (tells_spanned h) with h | ⟨a, t, ha, h⟩
    · exact ⟨[], 'a', s, .one, by simp, .refl s, .inl (tells_satisfying h).1⟩
    have ha := accepts_anyChar.1 ha
    rcases tells_bind h with h | ⟨_, u, hd, h⟩
    · exact ⟨[a], '-', t, .dash, by simp, ha, tells_char h⟩
    have hd := ha.trans (accepts_char.1 hd)
    rcases tells_bind h with h | ⟨b, v, -, h⟩
    · exact ⟨[a, '-'], 'a', u, .range .nil, by simp, hd, .inl (tells_satisfying h).1⟩
    · exact absurd h (not_tells_pure _)
  · rcases tells_bind (tells_spanned h) with h | ⟨c, t, -, h⟩
    · exact .inr ⟨[], 'a', s, .one, by simp, .refl s, .inl (tells_satisfying h).1⟩
    · exact absurd h (not_tells_pure _)

theorem spelledAll_of_chain {is : List Item} (h : item.Chain s is t) : Item.SpelledAll is s t := by
  induction h with
  | nil => exact .nil
  | cons h _ ih => exact .cons (accepts_item.1 h) ih

theorem accepts_caret {o : Option Unit} (hu : u.Reads ['['] s)
    (h : (optional (char '^')).Accepts s o t) :
    ∃ negated, u.Reads (opening negated) t ∧ (negated = false → t.rest.head? ≠ some '^') := by
  rcases accepts_optional.1 h with ⟨_, -, h⟩ | ⟨-, rfl, h⟩
  · exact ⟨true, hu.trans (accepts_char.1 h), by simp⟩
  · exact ⟨false, hu, fun _ => refuses_char.1 h⟩

/-- The list can go on with the character `e`, whatever stands in front of it. -/
theorem admits_in_list {negated : Bool} {is : List Item} {a b : Place} {e : Char}
    (ha : s.Reads (opening negated) a) (hcaret : negated = false → a.rest.head? ≠ some '^')
    (his : Item.SpelledAll is a b) (hv : b.Reads v u) (hl : ListOpen (v ++ [e]))
    (he : v = [] → e ≠ '^') : ∃ w z, s.Reads w u ∧ Admits m w (· = e :: z) := by
  obtain ⟨w, hw, hl, he⟩ := hl.behind_items his hv he
  obtain ⟨z, hz⟩ := hl.admits_opening (m := m) hcaret hw he
  exact ⟨_, z, ha.trans hw, hz⟩

theorem known_in_list {negated : Bool} {is : List Item} {a b : Place} {e : Char}
    (ha : s.Reads (opening negated) a) (hcaret : negated = false → a.rest.head? ≠ some '^')
    (his : Item.SpelledAll is a b) (hv : b.Reads v u) (hl : ListOpen (v ++ [e]))
    (he : v = [] → e ≠ '^') (hx : u.Misses (some e) x) : Known m s x := by
  obtain ⟨w, z, hw, hz⟩ := admits_in_list ha hcaret his hv hl he
  exact .of_misses (.admits hw hz) hx

theorem carries_charList {is : List Item} {negated : Bool} {a b : Place}
    (ha : s.Reads (opening negated) a) (hcaret : negated = false → a.rest.head? ≠ some '^')
    (hne : is ≠ []) (his : Item.SpelledAll is a b) (hrange : ¬ b.rest.OpensRange)
    (hb : b.Reads [']'] t) : Carries m s .filled t where
  stands u Z h := by
    obtain ⟨w, hw⟩ := his.before
    have hall := ha.trans (hw.trans hb)
    have hbehind : ∀ {v Z}, t.Reads v u → (v = ['-'] → u.rest ≠ []) → Admits .filled v Z →
        Admits m (opening negated ++ (w ++ [']']) ++ v) Z := by
      intro v Z hv hlast h
      simpa using h.behind_charList (m := m) hne hcaret his hrange hw hb hv hlast
    -- With a character behind it the dash would be taken for that of a range.
    have hdash : t.Reads ['-'] u → u.rest = [] → Stands m s u Z := by
      intro hv hend
      have hopen : ∀ e, ListOpen ([']', '-'] ++ [e]) := fun e => .range .nil
      exact .runsOn hend fun c => admits_in_list ha hcaret his (hb.trans hv) (hopen c) (by simp)
    cases h with
    | @admits v hv h =>
      by_cases hlast : v = ['-'] ∧ u.rest = []
      · exact hdash (hlast.1 ▸ hv) hlast.2
      · exact .admits (hall.trans hv) (hbehind hv (by tauto) h)
    | runsOn hend h =>
      by_cases hlast : t.Reads ['-'] u
      · exact hdash hlast hend
      · refine .runsOn hend fun c => ?_
        obtain ⟨v, z, hv, h⟩ := h c
        exact ⟨_, z, hall.trans hv, hbehind hv (fun hdash => absurd (hdash ▸ hv) hlast) h⟩
  dead u h := by
    have hspelled := Spelled.charList ha hcaret hne his hrange hb
    obtain ⟨v, -, hv⟩ := hspelled.reads
    exact h.behind hv fun w hw hd => hd.behind_atom hspelled trivial hv hw

theorem leads_charList (m : Stage) : Leads m charList .filled where
  tells s x h := by
    refine .of_within (by decide) h fun h => ?_
    rcases tells_bind (tells_spanned h) with h | ⟨_, a, ha, h⟩
    · obtain ⟨z, hz⟩ := ListOpen.nil.admits (m := m) (v := [])
      exact .of_misses (.refl (hz.of_concat (v := []) (by simp))) (tells_char h)
    have ha := accepts_char.1 ha
    rcases tells_bind h with h | ⟨o, b, hb, h⟩
    · obtain ⟨z, hz⟩ := ListOpen.nil.admits (m := m) (v := ['^'])
      exact .of_misses (.admits ha (hz.of_concat (v := ['[']) (by simp)))
        (tells_char (tells_optional h))
    obtain ⟨negated, hb, hcaret⟩ := accepts_caret ha hb
    rcases tells_bind h with h | ⟨is, c, his, h⟩
    · obtain ⟨is, c, his, hc⟩ := tells_many1 h
      rcases tells_item hc with rfl | ⟨v, e, u, hl, he, hv, hx⟩
      · exact .within (by decide)
      · exact known_in_list hb hcaret (spelledAll_of_chain his) hv hl he hx
    obtain ⟨i, js, d, hi, hjs, rfl⟩ := (accepts_many1 advances_item).1 his
    have his := (repeats_item.1 (.more hi hjs)).1
    rcases tells_bind h with h | ⟨_, d, -, h⟩
    · exact known_in_list hb hcaret his (.refl c) .one (by simp) (tells_char h)
    · exact absurd h (not_tells_pure _)
  carries s n t h := by
    obtain ⟨is, negated, a, b, ha, hcaret, hne, his, hrange, hb, -⟩ := accepts_charList.1 h
    exact carries_charList ha hcaret hne his hrange hb

theorem known_of_sign {r r' : Repetition} (hv : r.Written v) (h : (sign v r').Tells s x) :
    Known .filled s x := by
  rcases tells_bind h with h | ⟨_, t, -, h⟩
  · obtain ⟨w, c, z, t, rfl, hw, hx⟩ := tells_exactly h
    exact .of_misses (.admits hw (admits_of_written hv)) hx
  · exact absurd h (not_tells_pure r')

theorem tells_digits (h : digits.Tells s x) :
    ∃ ds t, s.Reads ds t ∧ x = .stop t.stop ∧ (ds = [] ∨ digits.Accepts s ds t) := by
  obtain ⟨ds, t, hds, hx⟩ := tells_many1_satisfying h
  have hrun := repeats_satisfying.1 hds
  refine ⟨ds, t, hrun.1, hx, ?_⟩
  by_cases hne : ds = []
  · exact .inl hne
  · exact .inr (accepts_digits.2 ⟨hne, hrun⟩)

theorem tells_count (h : count.Tells s x) :
    (∃ ds t, Repetition.IsCount ds ∧ s.Reads ds t ∧ x = .stop t.stop) ∨
      ∃ ds t, digits.Accepts s ds t ∧ Nat.pow 2 32 ≤ digitsValue ds ∧
        x = .stop ⟨t.offset, s.offset, .countTooLarge ds, none⟩ := by
  have hsmall : digits.Tells s x → (∀ ds t, digits.Accepts s ds t → digitsValue ds < Nat.pow 2 32) →
      ∃ ds t, Repetition.IsCount ds ∧ s.Reads ds t ∧ x = .stop t.stop := by
    intro htells hvalue
    obtain ⟨ds, t, hr, hx, rfl | hds⟩ := tells_digits htells
    · exact ⟨[], t, Repetition.isCount_nil, hr, hx⟩
    · exact ⟨ds, t, ⟨(accepts_digits.1 hds).2.2.1, hvalue ds t hds⟩, hr, hx⟩
  unfold Tells count at h
  cases hd : digits s with
  | stuck o =>
    rw [hd] at h
    exact .inl (hsmall (by rwa [Tells, hd]) fun ds t hds => absurd ⟨o, hd⟩ hds.not_refuses)
  | accepted ds t passed =>
    rw [hd] at h
    by_cases hvalue : digitsValue ds < Nat.pow 2 32
    · simp only [hvalue, ↓reduceIte] at h
      refine .inl (hsmall (by rwa [Tells, hd]) fun es u hes => ?_)
      obtain ⟨rfl, -⟩ := hes.unique ⟨passed, hd⟩
      exact hvalue
    · simp only [hvalue, ↓reduceIte] at h
      refine .inr ⟨ds, t, ⟨passed, hd⟩, Nat.not_lt.1 hvalue, ?_⟩
      cases x with
      | stop y => exact congrArg Report.stop h.symm
      | awaits k e => exact absurd h.2 List.not_mem_nil
      | within c => cases h

theorem known_of_bounds (h : bounds.Tells s x) : Known .filled s x := by
  have hcount : ∀ {es b}, s.Reads ('{' :: es) b →
      (es = [] ∨ ∃ cs, Repetition.IsCount cs ∧ es = cs ++ [',']) →
      (∀ {ds}, Repetition.IsCount ds → ∃ r z, Repetition.Written r ('{' :: es ++ ds ++ z)) →
      (optional count).Tells b x → Known .filled s x := by
    intro es b hb hes hwritten h
    rcases tells_count (tells_optional h) with ⟨ds, t, hds, hr, rfl⟩ | ⟨ds, t, hds, hlarge, rfl⟩
    · obtain ⟨r, z, hz⟩ := hwritten hds
      exact .stop (.admits (hb.trans hr) (admits_of_written hz))
    · obtain ⟨hne, hr, hdigits, -⟩ := accepts_digits.1 hds
      have hdead : Dead .filled s t := ⟨_, hb.trans hr, .of_count hes hne hdigits hlarge⟩
      exact .count (.refl admits_repetition) hb hes hds hlarge hdead
  rcases tells_bind h with h | ⟨_, b, hb, h⟩
  · have hz := Repetition.Written.braces Repetition.isCount_nil Repetition.isCount_nil
    exact .of_misses (.refl (admits_of_written (v := []) hz)) (tells_char h)
  have hb := accepts_char.1 hb
  have hmin : ∀ {ds}, Repetition.IsCount ds →
      ∃ r, Repetition.Written r ('{' :: ds ++ [',', '}']) :=
    fun hds => ⟨_, by simpa using Repetition.Written.braces hds Repetition.isCount_nil⟩
  rcases tells_bind h with h | ⟨min, c, hc, h⟩
  · exact hcount hb (.inl rfl) (fun hds => (hmin hds).imp fun _ hr => ⟨[',', '}'], hr⟩) h
  obtain ⟨ds, hds, hc, -⟩ := accepts_optional_count hc
  have hc := hb.trans hc
  rcases tells_bind h with h | ⟨_, d, hd, h⟩
  · obtain ⟨r, hr⟩ := hmin hds
    exact .of_misses (.admits hc (admits_of_written hr)) (tells_char h)
  have hd := hc.trans (accepts_char.1 hd)
  have hmax : ∀ {es}, Repetition.IsCount es →
      ∃ r, Repetition.Written r ('{' :: (ds ++ [',']) ++ es ++ ['}']) :=
    fun hes => ⟨_, by simpa using Repetition.Written.braces hds hes⟩
  rcases tells_bind h with h | ⟨max, e, he, h⟩
  · exact hcount hd (.inr ⟨ds, hds, rfl⟩) (fun hes => (hmax hes).imp fun _ hr => ⟨['}'], hr⟩) h
  obtain ⟨es, hes, he, -⟩ := accepts_optional_count he
  have he := hd.trans he
  rcases tells_bind h with h | ⟨_, g, -, h⟩
  · obtain ⟨r, hr⟩ := hmax hes
    exact .of_misses (.admits (by simpa using he) (admits_of_written hr)) (tells_char h)
  · exact absurd h (not_tells_pure _)

theorem leads_quantifier : Leads .filled quantifier .ready where
  tells s x h := by
    refine .of_within (by decide) h fun h => ?_
    rcases tells_bind (tells_spanned h) with h | ⟨r, t, -, h⟩
    swap
    · exact absurd h (not_tells_pure _)
    rcases tells_orElse h with h | h
    · exact known_of_sign .lazyStar h
    rcases tells_orElse h with h | h
    · exact known_of_sign .lazyPlus h
    rcases tells_orElse h with h | h
    · exact known_of_sign .plus h
    rcases tells_orElse h with h | h
    · exact known_of_sign .star h
    rcases tells_orElse h with h | h
    · exact known_of_sign .once h
    · exact known_of_bounds h
  carries s n t h := by
    obtain ⟨r, v, hw, hr, -⟩ := accepts_quantifier.1 h
    exact .behind hr hw.ne_nil (fun y w => .quantifier hw) fun _ _ _ hd => hd.behind_quantifier hw

theorem tells_groupName (h : groupName.Tells s x) : x = .within .groupName ∨
    ∃ v c z w t, IsName w ∧ v ++ c :: z = nameHeader (some w) ∧ s.Reads v t ∧
      t.Misses (some c) x := by
  have ha : IsName ['a'] := by simp [IsName]
  have hno : ∀ {w : Text}, (∀ c ∈ w, decide (c ≠ '>') = true) → '>' ∉ w := by
    intro w hw hmem
    simpa using hw '>' hmem
  rcases tells_within h with h | rfl
  swap
  · exact .inl rfl
  right
  rcases tells_bind h with h | ⟨_, a, hopen, h⟩
  · obtain ⟨v, c, z, t, hv, hr, hx⟩ := tells_exactly h
    have hheader : v ++ c :: (z ++ ['a', '>']) = nameHeader (some ['a']) := by
      rw [← List.cons_append, ← List.append_assoc, ← hv]
      rfl
    exact ⟨v, c, _, ['a'], t, ha, hheader, hr, hx⟩
  · have hopen := accepts_exactly.1 hopen
    rcases tells_bind h with h | ⟨w, b, hname, h⟩
    · obtain ⟨w, t, hw, hx⟩ := tells_many1_satisfying h
      obtain ⟨hr, hplain, -⟩ := repeats_satisfying.1 hw
      have hname : IsName (w ++ ['a']) := by simp [IsName, hno hplain]
      exact ⟨_, 'a', ['>'], w ++ ['a'], t, hname, by simp [nameHeader], hopen.trans hr, .inl hx⟩
    · obtain ⟨hne, hr, hplain, -⟩ := accepts_many1_satisfying.1 hname
      rcases tells_bind h with h | ⟨_, c, -, h⟩
      · exact ⟨_, '>', [], w, b, ⟨hne, hno hplain⟩, by simp [nameHeader], hopen.trans hr,
          tells_char h⟩
      · exact absurd h (not_tells_pure _)

theorem known_of_marker (hs : s.Reads ['('] t) (h : (optional (exactly ['?', ':'])).Tells t x) :
    Known m s x := by
  obtain ⟨w, c, z, u, hv, hr, hx⟩ := tells_exactly (tells_optional h)
  have hheader : w ++ c :: z = groupHeader true none := hv.symm
  exact .of_misses (.admits (hs.trans hr) (admits_header (by simp) hheader)) hx

theorem accepts_marker {o : Option Unit} (hs : s.Reads ['('] t)
    (h : (optional (exactly ['?', ':'])).Accepts t o u) :
    ∃ nonCapturing, s.Reads ('(' :: groupHeader nonCapturing none) u := by
  rcases accepts_optional.1 h with ⟨_, -, h⟩ | ⟨-, rfl, -⟩
  · exact ⟨true, hs.trans (accepts_exactly.1 h)⟩
  · exact ⟨false, hs⟩

variable {nonCapturing : Bool}

theorem known_of_name (hs : s.Reads ('(' :: groupHeader nonCapturing none) t)
    (h : (optional groupName).Tells t x) : Known m s x := by
  rcases tells_groupName (tells_optional h) with rfl | ⟨v, c, z, w, u, hw, hv, hr, hx⟩
  · exact .within (by decide)
  · have hheader : groupHeader nonCapturing none ++ v ++ c :: z =
        groupHeader nonCapturing (some w) := by
      rw [List.append_assoc, hv]
      simp [groupHeader, nameHeader]
    exact .of_misses (.admits (hs.trans hr) (admits_header (by simpa using hw) hheader)) hx

theorem accepts_name {name : Option Text} (hs : s.Reads ('(' :: groupHeader nonCapturing none) t)
    (h : (optional groupName).Accepts t name u) :
    (∀ w ∈ name, IsName w) ∧ s.Reads ('(' :: groupHeader nonCapturing name) u := by
  rcases accepts_optional.1 h with ⟨w, rfl, hname⟩ | ⟨rfl, rfl, -⟩
  · obtain ⟨hw, hr⟩ := accepts_groupName.1 hname
    exact ⟨by simpa using hw, by simpa [groupHeader, nameHeader] using hs.trans hr⟩
  · exact ⟨by simp, hs⟩

variable {P : Reader (List Node)}

theorem leads_group (hP : Sound P) (h : Leads .ready P .ready) (m : Stage) :
    Leads m (group P) .filled where
  tells s x hx := by
    refine .of_within (by decide) hx fun hx => ?_
    rcases tells_bind (tells_spanned hx) with hx | ⟨_, a, ha, hx⟩
    · have hheader : ([] : Text) ++ [] = groupHeader false none := rfl
      have hz := admits_header (m := m) (by simp) hheader
      exact .of_misses (.refl (hz.of_concat (v := []) (by simp))) (tells_char hx)
    have ha := accepts_char.1 ha
    rcases tells_bind hx with hx | ⟨_, b, hb, hx⟩
    · exact known_of_marker ha hx
    obtain ⟨nonCapturing, hb⟩ := accepts_marker ha hb
    rcases tells_bind hx with hx | ⟨name, c, hc, hx⟩
    · exact known_of_name hb hx
    obtain ⟨hname, hc⟩ := accepts_name hb hc
    rcases tells_bind hx with hx | ⟨cs, d, hcs, hx⟩
    · exact (h.tells hx).carried (.in_group hname hc)
    rcases tells_bind hx with hx | ⟨_, e, -, hx⟩
    · have hend : Stands .ready d d (· = []) :=
        .refl (admits_of_completes (by simp) fun _ hw => .stop (by simp) hw)
      obtain ⟨z, hz⟩ := ((h.carries hcs).stands hend).closing (m := m) hname hc
      exact .of_misses hz (tells_char hx)
    · exact absurd hx (not_tells_pure _)
  carries s n t hn := by
    obtain ⟨cs, nonCapturing, name, a, b, ha, hname, hcs, hb, rfl⟩ := accepts_group hn
    have hin := hP hcs
    obtain ⟨v, hv⟩ := hin.before
    have hspelled := Spelled.group ha hname hin hb
    have hgroup := ha.trans (hv.trans hb)
    refine .behind hgroup (by simp) (fun y w hy => ?_) fun w u hw hd => ?_
    · simpa using completes_of_group hname hin hv hb.rest hy
    · exact hd.behind_atom hspelled trivial hgroup hw

theorem leads_atom (hP : Sound P) (h : Leads .ready P .ready) (m : Stage) :
    Leads m (atom P) .filled :=
  (leads_anyCharacter m).orElse ((leads_escape m).orElse ((leads_charList m).orElse
    ((leads_verbatim m).orElse (leads_group hP h m))))

theorem leads_quantifiable (hP : Sound P) (h : Leads .ready P .ready) :
    Leads .ready (quantifiable P) .filled := by
  have hbar : Leads .filled (char '|') .barred :=
    .char (by decide) (fun _ _ => .bar) fun _ => .behind_bar
  have hbranch : Leads .filled ((char '|').andThen fun _ => atom P) .filled :=
    Leads.bind hbar fun _ => leads_atom hP h .barred
  have hatoms : Leads .ready ((atom P).separatedBy (char '|')) .filled :=
    (leads_atom hP h .ready).bind fun _ => hbranch.many.bind fun _ => .pure .filled _
  exact .spanned (hatoms.bind fun _ => .pure .filled _)

theorem leads_quantified (hP : Sound P) (h : Leads .ready P .ready) :
    Leads .ready (quantified P) .ready :=
  (leads_quantifiable hP h).bind fun _ =>
    (leads_quantifier.optional .filled_of_ready).bind fun _ => .pure .ready _

theorem leads_patternWithin (depth : Nat) : Leads .ready (patternWithin depth) .ready := by
  induction depth with
  | zero => exact .pure .ready []
  | succ depth ih =>
    exact (leads_quantified (sound_patternWithin depth) ih).many.bind fun _ => .pure .ready _

theorem tells_pattern : pattern.Tells s x ↔ (patternWithin (s.rest.length + 1)).Tells s x := by
  simp only [Tells, pattern]

theorem known_of_whole (h : whole.Tells s x) : Known .ready s x ∨
    ∃ ns t, pattern.Accepts s ns t ∧ x = .awaits t.offset none := by
  have hpattern := leads_patternWithin (s.rest.length + 1)
  rcases tells_complete h with h | ⟨ns, t, hns, rfl | rfl⟩
  · exact .inl (hpattern.tells (tells_pattern.1 h))
  · exact .inl (.carried (hpattern.carries (accepts_pattern.1 hns)) (.stop (.here .ready t)))
  · exact .inr ⟨ns, t, hns, rfl⟩

theorem known_of_stuck {o : Obstacle} (ho : whole s = .stuck o) (hx : o.Tells x) :
    Known .ready s x ∨ ∃ ns t, pattern.Accepts s ns t ∧ x = .awaits t.offset none :=
  known_of_whole (by rwa [Tells, ho])

theorem blocked_of_whole {y : Stop} (h : whole.Stops s y) : Blocked .ready s y := by
  rcases known_of_whole h with h | ⟨ns, t, -, hx⟩
  · exact h.blocked
  · cases hx

end PatternAnatomy.Grammar
