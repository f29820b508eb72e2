import PatternAnatomy.Proofs.Grammar.Rereading
import PatternAnatomy.Proofs.Grammar.Beginning
import PatternAnatomy.Proofs.Reading.Fork

namespace PatternAnatomy.Grammar

open Reader Node

variable {f : Fork} {k : Nat} {s t : Place} {r v : Text} {P : Reader (List Node)}

instance (set : List Char) : Onward (charOutside set) := by unfold charOutside; infer_instance

instance (c : Char) : Onward (charExcept c) := by unfold charExcept; infer_instance

instance (c : Char) : Onward (runExcept c) := by unfold runExcept; infer_instance

instance : Onward digits := by unfold digits; infer_instance

theorem extent_le_count {ds : Text} (h : digits.Accepts s ds t) : t.offset ≤ (count s).extent := by
  obtain ⟨passed, h⟩ := h
  simp only [count, h]
  split
  · exact Nat.le_max_left _ _
  · exact Nat.le_refl _

instance : Onward count where
  le_extent s := by
    cases h : digits s with
    | stuck o =>
      have ho := le_extent digits s
      rw [h] at ho
      simp only [count, h]
      exact ho
    | accepted ds t passed =>
      have hds : digits.Accepts s ds t := ⟨passed, h⟩
      exact Nat.le_trans (accepts_digits.1 hds).2.1.before.offset_le (extent_le_count hds)

instance : Onward anyCharacter := by unfold anyCharacter; infer_instance

instance : Onward escape := by unfold escape; infer_instance

instance : Onward verbatim := by unfold verbatim; infer_instance

instance : Onward anyChar := by unfold anyChar; infer_instance

instance : Onward range := by unfold range; infer_instance

instance : Onward singleChar := by unfold singleChar; infer_instance

instance : Onward item := by unfold item; infer_instance

instance : Onward charList := by unfold charList; infer_instance

instance : Onward bounds := by unfold bounds; infer_instance

instance (v : Text) (r : Repetition) : Onward (sign v r) := by unfold sign; infer_instance

instance : Onward quantifier := by unfold quantifier; infer_instance

instance : Onward groupName := by unfold groupName; infer_instance

instance [Onward P] : Onward (group P) := by unfold group; infer_instance

instance [Onward P] : Onward (atom P) := by unfold atom; infer_instance

instance [Onward P] : Onward (branch P) :=
  inferInstanceAs (Onward (char '|' >>= fun _ => atom P))

instance [Onward P] : Onward (quantifiable P) :=
  inferInstanceAs (Onward (spanned (((atom P) >>= fun a => (branch P).many >>= fun as =>
    pure (a :: as)) >>= fun atoms => pure (branches atoms))))

instance [Onward P] : Onward (quantified P) := by unfold quantified; infer_instance

instance (depth : Nat) : Onward (patternWithin depth) := by
  induction depth with
  | zero => exact inferInstanceAs (Onward (pure []))
  | succ depth ih =>
    unfold patternWithin
    infer_instance

theorem accepts_run_of_meets {test : Char → Bool} (hs : f.Meets s (v ++ r)) (hne : v ≠ [])
    (hv : ∀ c ∈ v, test c = true) (hr : ∀ c, r.head? = some c → test c = false) :
    f.offset ≤ s.offset ∨ ∃ w t, (satisfying test).many1.Accepts s w t ∧ s.Before t ∧
      (f.offset ≤ t.offset ∨ (w = v ∧ f.Meets t r)) := by
  obtain ⟨c, v, rfl⟩ := List.exists_cons_of_ne_nil hne
  rcases hs.head? with h | hc
  · exact .inl h
  right
  obtain ⟨w, t, hrun⟩ := exists_repeats (advances_satisfying test) s
  obtain ⟨hw, htest, hend⟩ := repeats_satisfying.1 hrun
  have hwne : w ≠ [] := by
    rintro rfl
    obtain rfl := Place.Reads.nil_iff.1 hw
    have hno := hend c hc
    rw [hv c (by simp)] at hno
    cases hno
  refine ⟨w, t, accepts_many1_satisfying.2 ⟨hwne, hw, htest, hend⟩, hw.before, ?_⟩
  rcases hs.of_reads hw with h | ⟨r', heq, ht⟩
  · exact .inl h
  rcases ht.head? with h | hhead
  · exact .inl h
  -- Neither run goes on, so that they are the same.
  obtain rfl := Text.run_unique hv htest hr (hhead ▸ hend) heq
  exact .inr ⟨rfl, List.append_cancel_left heq ▸ ht⟩

theorem follows_run {test : Char → Bool} (hne : v ≠ []) (hv : ∀ c ∈ v, test c = true)
    (hr : ∀ c, r.head? = some c → test c = false) :
    f.Follows k (satisfying test).many1 (v ++ r) (· = r) := by
  intro s _ hs
  rcases accepts_run_of_meets hs hne hv hr with h | ⟨w, t, hw, hst, h | ⟨-, ht⟩⟩
  · exact .inl (Nat.le_trans h (le_extent _ s))
  · exact .inl (Nat.le_trans h hw.le_extent)
  · exact .inr ⟨w, t, r, hw, hst, ht, rfl⟩

theorem follows_groupName {name : Text} (hname : IsName name) (r : Text) :
    f.Follows k groupName (nameHeader (some name) ++ r) (· = r) := by
  have hheader : nameHeader (some name) ++ r = ['?', '<'] ++ (name ++ '>' :: r) := by
    simp [nameHeader]
  have hplain : ∀ c ∈ name, decide (c ≠ '>') = true := by
    intro c hc
    rw [decide_eq_true_eq]
    rintro rfl
    exact hname.2 hc
  rw [hheader]
  refine .within (.bind (.exactly _ _) ?_)
  rintro _ _ rfl
  refine .bind (follows_run hname.1 hplain (by simp)) ?_
  rintro _ _ rfl
  refine .bind (.char _ _) ?_
  rintro _ _ rfl
  exact .pure _ rfl

theorem follows_name {name : Option Text} (hname : ∀ w ∈ name, IsName w)
    (hr : r.head? ≠ some '?') :
    f.Follows k (optional groupName) (nameHeader name ++ r) (· = r) := by
  cases name with
  | some w => exact (follows_groupName (hname w rfl) r).optional
  | none =>
    refine .optional_of_head? (fun s hhead => refuses_iff.2 fun w t hw => hr ?_) rfl
    have hs := (accepts_groupName.1 hw).2.rest
    exact hhead.symm.trans (by rw [hs]; rfl)

theorem refuses_exactly_of_meets (hs : f.Meets s r) (hno : ¬ v <+: r) :
    f.offset ≤ (exactly v s).extent ∨ (exactly v).Refuses s := by
  induction v generalizing s r with
  | nil => exact absurd (List.nil_prefix) hno
  | cons c v ih =>
    cases r with
    | nil => exact .inl (Nat.le_trans hs.nil (le_extent _ s))
    | cons d r =>
      rcases hs.cons with h | ⟨t, hd, ht⟩
      · exact .inl (Nat.le_trans h (le_extent _ s))
      have hrest : s.rest = d :: t.rest := hd.rest
      by_cases hc : c = d
      · subst hc
        rcases ih ht (by simpa using hno) with h | h
        · left
          exact Nat.le_trans h (extent_le_bind_of_accepts (f := fun _ => exactly v)
            (accepts_char.2 hd : (char c).Accepts s () t))
        · right
          rw [refuses_exactly] at h ⊢
          simpa [hrest] using h
      · exact .inr (refuses_exactly.2 (by simp [hrest, hc]))

theorem follows_marker {nonCapturing : Bool} {name : Option Text} (hr : r.head? ≠ some '?') :
    f.Follows k (optional (exactly ['?', ':'])) (groupHeader nonCapturing name ++ r)
      (· = nameHeader name ++ r) := by
  cases nonCapturing with
  | true => exact (Fork.Follows.exactly ['?', ':'] (nameHeader name ++ r)).optional
  | false =>
    have hno : ¬ ['?', ':'] <+: groupHeader false name ++ r := by
      rw [← nonCapturing_iff hr]
      exact Bool.false_ne_true
    exact .optional_of_refuses (fun s hs => refuses_exactly_of_meets hs hno) rfl

theorem follows_group [Onward P] {u : Text} {nonCapturing : Bool} {name : Option Text}
    (hP : f.Follows k P u (· = ')' :: r)) (hname : ∀ w ∈ name, IsName w)
    (hu : u.head? ≠ some '?') :
    f.Follows (k + 1) (group P) ('(' :: groupHeader nonCapturing name ++ u) (· = r) := by
  refine .within (.spanned (.behind_char fun _ => .bind (follows_marker hu) ?_))
  rintro _ _ rfl
  refine .bind (follows_name hname hu) ?_
  rintro _ _ rfl
  refine .bind hP ?_
  rintro _ _ rfl
  refine .bind (.char _ _) ?_
  rintro _ _ rfl
  exact .pure _ rfl

theorem le_extent_range {c : Char} (hc : s.Reads [c] t) : t.offset ≤ (range s).extent := by
  unfold range
  rw [extent_within, extent_spanned]
  exact Nat.le_trans (le_extent _ t) (extent_le_bind_of_accepts (accepts_anyChar.2 hc))

theorem le_extent_range_of_dash {c : Char} {u : Place} (hc : s.Reads [c] t) (hd : t.Reads ['-'] u) :
    u.offset ≤ (range s).extent := by
  have hdash : (char '-').Accepts t () u := accepts_char.2 hd
  unfold range
  rw [extent_within, extent_spanned]
  apply Nat.le_trans _ (extent_le_bind_of_accepts (accepts_anyChar.2 hc))
  exact Nat.le_trans (le_extent _ u) (extent_le_bind_of_accepts hdash)

theorem extent_range_le (h : item.Refuses s) : (range s).extent ≤ (item s).extent :=
  extent_le_orElse_left (refuses_orElse.1 h).2

theorem le_extent_item {c : Char} (hc : s.Reads [c] t) : t.offset ≤ (item s).extent := by
  rcases item.accepts_or_refuses s with ⟨i, u, h⟩ | h
  · obtain ⟨v, hne, hv⟩ := advances_item h
    have hpos := List.length_pos_iff.2 hne
    have hto := hc.offset
    have huo := hv.offset
    rw [List.length_singleton] at hto
    have hle := h.le_extent
    omega
  · exact Nat.le_trans (le_extent_range hc) (extent_range_le h)

/-- What the other text has left in the course of a list that reaches to `r`. Besides what can be
scanned, it may be a dash with the fork behind it, if the one text ends there: the reader has taken
the character in front of the dash by itself then, and finds out about its end only by the dash. -/
def InList (f : Fork) (r u : Text) : Prop :=
  Scans u (']' :: r) ∨ (f.rest = [] ∧ u = '-' :: f.other)

theorem item_of_dash {c : Char} {a : Place} {u : Text} (hc : s.Reads [c] t) (hd : t.Reads ['-'] a)
    (ht : f.Meets t ('-' :: u)) (ha : f.Meets a u) (hu : Scans (c :: '-' :: u) (']' :: r)) :
    f.offset ≤ (item s).extent ∨ ∃ i t u', item.Accepts s i t ∧ f.Meets t u' ∧ InList f r u' := by
  have hrest : s.rest = c :: '-' :: a.rest := (hc.trans hd).rest
  cases hb : a.rest with
  | nil =>
    have hno : ¬ s.rest.OpensRange := by
      rw [hrest, hb, Text.opensRange_cons]
      rintro ⟨b, w, h⟩
      cases h
    obtain ⟨w, hw, ho, rfl⟩ := ha
    obtain ⟨rfl, hend⟩ := List.append_eq_nil_iff.1 (hw.symm.trans hb)
    by_cases hclose : c = ']'
    · have hrefuses : item.Refuses s := refuses_item.2 ⟨hno, by simp [hrest, hclose]⟩
      have hrange := Nat.le_trans (le_extent_range_of_dash hc hd) (extent_range_le hrefuses)
      exact .inl (Nat.le_trans (Nat.le_of_eq ho) hrange)
    · have hitem := accepts_item.2 (Item.Spelled.single hc hclose hno)
      exact .inr ⟨_, t, _, hitem, ht, .inr ⟨hend, rfl⟩⟩
  | cons b w =>
    have hb : a.Reads [b] _ := .of_append hb
    have hitem := accepts_item.2 (Item.Spelled.range (hc.trans (hd.trans hb)))
    rcases ha.of_reads hb with h | ⟨u', rfl, hu'⟩
    · exact .inl (Nat.le_trans h hitem.le_extent)
    · exact .inr ⟨_, _, u', hitem, hu', .inl (hu.of_some rfl)⟩

theorem item_of_scans {u : Text} (hs : f.Meets s u) (hu : Scans u (']' :: r)) :
    f.offset ≤ (item s).extent ∨
      (∃ i t u', item.Accepts s i t ∧ f.Meets t u' ∧ InList f r u') ∨
      (item.Refuses s ∧ behindItem u = none ∧ u = ']' :: r) := by
  rcases u with _ | ⟨c, u⟩
  · exact .inl (Nat.le_trans hs.nil (le_extent _ s))
  rcases hs.cons with h | ⟨t, hc, ht⟩
  · exact .inl (Nat.le_trans h (le_extent _ s))
  rcases u with _ | ⟨d, u⟩
  · exact .inl (Nat.le_trans ht.nil (le_extent_item hc))
  rcases ht.cons with h | ⟨a, hd, ha⟩
  · exact .inl (Nat.le_trans h (le_extent_item hc))
  by_cases hdash : d = '-'
  · subst hdash
    rcases item_of_dash hc hd ht ha hu with h | h
    · exact .inl h
    · exact .inr (.inl h)
  -- No range can be read in either text, and both are told by the next two characters.
  have hrest : s.rest = c :: d :: a.rest := (hc.trans hd).rest
  have hno : ¬ s.rest.OpensRange := hrest ▸ Text.not_opensRange_of_head? (by simpa using hdash)
  by_cases hclose : c = ']'
  · subst hclose
    have hnone : behindItem (']' :: d :: u) = none :=
      behindItem_bracket (Text.not_opensRange_of_head? (by simpa using hdash))
    exact .inr (.inr ⟨refuses_item.2 ⟨hno, by simp [hrest]⟩, hnone, hu.of_none hnone⟩)
  · have hitem := accepts_item.2 (Item.Spelled.single hc hclose hno)
    exact .inr (.inl ⟨_, t, _, hitem, ht, .inl (hu.of_some (behindItem_single hclose hdash u))⟩)

theorem item_of_inList {u : Text} (hs : f.Meets s u) (hu : InList f r u) :
    f.offset ≤ (item s).extent ∨
      (∃ i t u', item.Accepts s i t ∧ f.Meets t u' ∧ InList f r u') ∨
      (item.Refuses s ∧ u = ']' :: r) := by
  rcases hu with hu | ⟨-, rfl⟩
  · rcases item_of_scans hs hu with h | h | ⟨h, -, hr⟩
    · exact .inl h
    · exact .inr (.inl h)
    · exact .inr (.inr ⟨h, hr⟩)
  · rcases hs.cons with h | ⟨t, hd, w, -, ho, hw⟩
    · exact .inl (Nat.le_trans h (le_extent _ s))
    · obtain rfl : w = [] := by simpa using hw
      exact .inl (Nat.le_trans (Nat.le_of_eq ho) (le_extent_item hd))

theorem follows_items {u : Text} (hsome : behindItem u ≠ none) (hu : Scans u (']' :: r)) :
    f.Follows k item.many1 u (· = ']' :: r) := by
  have hfirst : f.Follows k item u (InList f r) := by
    intro s _ hs
    rcases item_of_scans hs hu with h | ⟨i, t, u', hi, ht, hu'⟩ | ⟨-, hno, -⟩
    · exact .inl h
    · obtain ⟨v, -, hv⟩ := advances_item hi
      exact .inr ⟨i, t, u', hi, hv.before, ht, hu'⟩
    · exact absurd hno hsome
  have hmany : ∀ u', InList f r u' → f.Follows k item.many u' (· = ']' :: r) := fun u' hu' =>
    .many advances_item (fun _ _ _ hs hu => item_of_inList hs hu) hu'
  exact hfirst.bind fun i u' hu' => (hmany u' hu').bind fun is u'' hu'' => .pure _ hu''

theorem follows_charList (h : ListReaches v r) : f.Follows k charList ('[' :: v) (· = r) := by
  have hcaret : f.Follows k (optional (char '^')) v (· = behindCaret v) := by
    unfold behindCaret
    split
    next u => exact (Fork.Follows.char '^' u).optional
    next hno =>
      refine .optional_of_head? (fun s hhead => refuses_char.2 fun hc => ?_) rfl
      obtain ⟨u, hu⟩ := List.head?_eq_some_iff.1 (hhead.symm.trans hc)
      exact hno u hu
  refine .within (.spanned (.bind (.char _ _) ?_))
  rintro _ _ rfl
  refine .bind hcaret ?_
  rintro _ _ rfl
  refine .bind (follows_items h.1 h.2) ?_
  rintro _ _ rfl
  refine .bind (.char _ _) ?_
  rintro _ _ rfl
  exact .pure _ rfl

theorem follows_count {ds : Text} {c : Char} (hds : Repetition.IsCount ds)
    (hc : c.isDigit = false) : f.Follows k (optional count) (ds ++ c :: r) (· = c :: r) := by
  have hend : ∀ d, (c :: r).head? = some d → d.isDigit = false := by simpa using hc
  by_cases hne : ds = []
  · subst hne
    exact .optional_of_head? (fun s hhead => count_refuses (hhead ▸ hend)) rfl
  · apply Fork.Follows.optional
    intro s _ hs
    rcases accepts_run_of_meets hs hne hds.1 hend with h | ⟨w, t, hw, hst, h⟩
    · exact .inl (Nat.le_trans h (le_extent _ s))
    · rcases h with h | ⟨rfl, ht⟩
      · exact .inl (Nat.le_trans h (extent_le_count hw))
      · exact .inr ⟨_, t, _, accepts_count.2 ⟨_, hw, hds.2, rfl⟩, hst, ht, rfl⟩

theorem follows_bounds {ds es : Text} (hds : Repetition.IsCount ds) (hes : Repetition.IsCount es)
    (r : Text) : f.Follows k bounds ('{' :: ds ++ ',' :: es ++ ['}'] ++ r) (· = r) := by
  have hbraces : '{' :: ds ++ ',' :: es ++ ['}'] ++ r = '{' :: (ds ++ ',' :: (es ++ '}' :: r)) := by
    simp
  rw [hbraces]
  refine .bind (.char _ _) ?_
  rintro _ _ rfl
  refine .bind (follows_count hds (by decide)) ?_
  rintro _ _ rfl
  refine .bind (.char _ _) ?_
  rintro _ _ rfl
  refine .bind (follows_count hes (by decide)) ?_
  rintro _ _ rfl
  refine .bind (.char _ _) ?_
  rintro _ _ rfl
  exact .pure _ rfl

theorem le_extent_quantifier {q : Repetition} (hq : q.Written v) (hv : s.Reads v t) :
    t.offset ≤ (quantifier s).extent := by
  by_cases hno : Repetition.Continues v t.rest
  · -- The sign is read together with the question mark behind it.
    obtain ⟨hsign, hhead⟩ := hno
    obtain ⟨w, hw⟩ := List.head?_eq_some_iff.1 hhead
    have hmark : t.Reads ['?'] _ := .of_append hw
    obtain ⟨q', hq'⟩ : ∃ q', Repetition.Written q' (v ++ ['?']) := by
      rcases hsign with rfl | rfl
      · exact ⟨_, .lazyStar⟩
      · exact ⟨_, .lazyPlus⟩
    have hend : ¬ Repetition.Continues (v ++ ['?']) w := by
      rcases hsign with rfl | rfl <;> simp [Repetition.Continues]
    have hlong := accepts_quantifier.2 ⟨q', _, hq', hv.trans hmark, hend, rfl⟩
    exact Nat.le_trans hmark.before.offset_le hlong.le_extent
  · exact (accepts_quantifier.2 ⟨q, v, hq, hv, hno, rfl⟩).le_extent

theorem extent_bounds_le (h : s.rest.head? = some '{') :
    (bounds s).extent ≤ (quantifier s).extent := by
  have hsign : ∀ {c v q}, c ≠ '{' → (sign (c :: v) q).Refuses s := by
    intro c v q hc
    apply refuses_sign.2
    apply Text.not_cons_prefix
    simpa [h] using hc.symm
  unfold quantifier
  rw [extent_within, extent_spanned]
  apply Nat.le_trans _ (extent_le_bind s)
  apply Nat.le_trans _ (extent_le_orElse_right (hsign (by decide)))
  apply Nat.le_trans _ (extent_le_orElse_right (hsign (by decide)))
  apply Nat.le_trans _ (extent_le_orElse_right (hsign (by decide)))
  apply Nat.le_trans _ (extent_le_orElse_right (hsign (by decide)))
  exact extent_le_orElse_right (hsign (by decide))

theorem follows_quantifier {q : Repetition} (hq : q.Written v) (hr : r.head? ≠ some '?') :
    f.Follows k quantifier (v ++ r) (· = r) := by
  intro s hk hs
  by_cases hbrace : v.head? = some '{'
  · cases hq with
    | braces hds hes =>
      rcases follows_bounds hds hes r hk hs with h | ⟨_, t, r', hbounds, hst, ht, rfl⟩
      · rcases hs.head? with hfork | hhead
        · exact .inl (Nat.le_trans hfork (le_extent _ s))
        · exact .inl (Nat.le_trans h (extent_bounds_le hhead))
      · obtain ⟨ds, es, hds, hes, hv, rfl⟩ := accepts_bounds.1 hbounds
        have hquantifier := accepts_quantifier.2
          ⟨_, _, .braces hds hes, hv, by simp [Repetition.Continues], rfl⟩
        exact .inr ⟨_, t, r', hquantifier, hst, ht, rfl⟩
    | _ => simp at hbrace
  · rcases hs.append with ⟨t, hv, ht⟩ | ⟨w, z, t, rfl, -, hw, hfork⟩
    · rcases ht.head? with h | h
      · exact .inl (Nat.le_trans h (le_extent_quantifier hq hv))
      · have hno : ¬ Repetition.Continues v t.rest := fun hno => hr (h.symm.trans hno.2)
        have hquantifier := accepts_quantifier.2 ⟨q, v, hq, hv, hno, rfl⟩
        exact .inr ⟨_, t, r, hquantifier, hv.before, ht, rfl⟩
    · left
      rw [← hfork]
      by_cases hne : w = []
      · subst hne
        obtain rfl := Place.Reads.nil_iff.1 hw
        exact le_extent _ t
      · obtain ⟨q', hq'⟩ := hq.of_append hne hbrace
        exact le_extent_quantifier hq' hw

theorem follows_optional_quantifier {u : Text} (h : Completes .filled r u)
    (hbar : r.head? ≠ some '|') :
    f.Follows k (optional quantifier) r (Completes .ready · u) := by
  rcases h.filled_cases with h | ⟨w, rfl, -⟩ | ⟨q, v, w, hq, rfl, hw⟩
  · refine .optional_of_head? (fun s hhead => quantifier_refuses fun c hc hno => ?_) h
    exact hhead ▸ h.head?_ne_of_ready hc hno
  · exact absurd rfl hbar
  · have hmark := hw.head?_ne_of_ready (c := '?') (by decide) (by decide)
    exact ((follows_quantifier hq hmark).mono fun _ hr => hr ▸ hw).optional

theorem anyCharacter_refuses (h : s.rest.head? ≠ some '.') : anyCharacter.Refuses s :=
  refuses_iff.2 fun _ _ hn => h (head?_of_anyCharacter hn)

theorem escape_refuses (h : s.rest.head? ≠ some '\\') : escape.Refuses s :=
  refuses_iff.2 fun _ _ hn => h (head?_of_escape hn)

theorem verbatim_refuses {c : Char} (h : s.rest.head? = some c) (hc : c ∈ significant) :
    verbatim.Refuses s :=
  refuses_iff.2 fun _ _ hn => head?_of_verbatim hn hc h

theorem extent_charList_le (h : s.rest.head? = some '[') :
    (charList s).extent ≤ (atom P s).extent := by
  have hgroup : (group P).Refuses s := by
    refine refuses_iff.2 fun _ _ hn => ?_
    simpa [h] using head?_of_group hn
  have hlater := refuses_orElse.2 ⟨verbatim_refuses h (by decide), hgroup⟩
  unfold atom
  apply Nat.le_trans _ (extent_le_orElse_right (anyCharacter_refuses (by simp [h])))
  apply Nat.le_trans _ (extent_le_orElse_right (escape_refuses (by simp [h])))
  exact extent_le_orElse_left hlater

theorem extent_group_le (h : s.rest.head? = some '(') :
    (group P s).extent ≤ (atom P s).extent := by
  have hlist : charList.Refuses s := by
    refine refuses_iff.2 fun _ _ hn => ?_
    simpa [h] using head?_of_charList hn
  unfold atom
  apply Nat.le_trans _ (extent_le_orElse_right (anyCharacter_refuses (by simp [h])))
  apply Nat.le_trans _ (extent_le_orElse_right (escape_refuses (by simp [h])))
  apply Nat.le_trans _ (extent_le_orElse_right hlist)
  exact extent_le_orElse_right (verbatim_refuses h (by decide))

theorem follows_character [Onward P] {c : Char} {u : Text}
    (hc : c = '.' ∨ c = '\\' ∨ c ∉ significant) (h : Completes .filled r u) :
    f.Follows k (atom P) (c :: r) (Completes .filled · u) := by
  intro s _ hs
  rcases hs.cons with hfork | ⟨t, hr, ht⟩
  · exact .inl (Nat.le_trans hfork (le_extent _ s))
  rcases hc with rfl | rfl | hc
  · have hn := (accepts_atom (P := P)).2 (.inl (accepts_anyCharacter.2 ⟨hr, rfl⟩))
    exact .inr ⟨_, t, r, hn, hr.before, ht, h⟩
  · have hn := (accepts_atom (P := P)).2 (.inr (.inl (accepts_escape.2 ⟨hr, rfl⟩)))
    exact .inr ⟨_, t, r, hn, hr.before, ht, h⟩
  · obtain ⟨v, a, hne, hv, hplain, n, hn⟩ := verbatim_accepts hr.rest hc
    have hn := (accepts_atom (P := P)).2 (.inr (.inr (.inr (.inl hn))))
    rcases hs.of_reads hv with hfork | ⟨r', heq, ha⟩
    · exact .inl (Nat.le_trans hfork hn.le_extent)
    · have hrun : Completes .filled (v ++ r') u := heq ▸ .character (.inr (.inr hc)) h
      exact .inr ⟨n, a, r', hn, hv.before, ha, hrun.of_verbatim hplain hne⟩

/-- The reader of patterns inside a group, on texts of less than `k` characters. -/
def FollowsPatterns (f : Fork) (k : Nat) (P : Reader (List Node)) : Prop :=
  ∀ r u, Completes .ready r u → f.Follows k P r (· = u)

theorem follows_atom [Onward P] {u : Text} (hP : FollowsPatterns f k P)
    (h : Completes .barred r u) : f.Follows (k + 1) (atom P) r (Completes .filled · u) := by
  cases h with
  | stop hm => exact absurd rfl hm
  | character hc h => exact follows_character hc h
  | charList hl h =>
    apply ((follows_charList hl).mono fun _ hr => hr ▸ h).of_extent_le
    · exact fun hn => accepts_atom.2 (.inr (.inr (.inl hn)))
    · exact extent_charList_le
  | group hname hin h =>
    have hmark := hin.head?_ne_of_ready (c := '?') (by decide) (by decide)
    apply ((follows_group (hP _ _ hin) hname hmark).mono fun _ hr => hr ▸ h).of_extent_le
    · exact fun hn => accepts_atom.2 (.inr (.inr (.inr (.inr hn))))
    · exact extent_group_le

theorem follows_branches [Onward P] {u : Text} (hsound : Sound P) (hP : FollowsPatterns f k P)
    (h : Completes .filled r u) : f.Follows (k + 1) (branch P).many r
      fun r => Completes .filled r u ∧ r.head? ≠ some '|' := by
  refine .many (advances_branch hsound) (I := (Completes .filled · u)) ?_ h
  intro s r hk hs hr
  by_cases hbar : r.head? = some '|'
  · obtain ⟨w, rfl⟩ := List.head?_eq_some_iff.1 hbar
    have hbranch : f.Follows (k + 1) (branch P) ('|' :: w) (Completes .filled · u) := by
      refine Fork.Follows.bind (g := fun _ => atom P) (.char '|' w) ?_
      rintro _ _ rfl
      exact follows_atom hP hr.of_bar
    rcases hbranch hk hs with h | ⟨n, t, r', hn, -, ht, hr'⟩
    · exact .inl h
    · exact .inr (.inl ⟨n, t, r', hn, ht, hr'⟩)
  · rcases hs.head? with hfork | hhead
    · exact .inl (Nat.le_trans hfork (le_extent _ s))
    · exact .inr (.inr ⟨branch_refuses (hhead ▸ hbar), hr, hbar⟩)

theorem follows_quantifiable [Onward P] {u : Text} (hsound : Sound P)
    (hP : FollowsPatterns f k P) (h : Completes .barred r u) :
    f.Follows (k + 1) (quantifiable P) r
      fun r => Completes .filled r u ∧ r.head? ≠ some '|' := by
  have hatoms : f.Follows (k + 1) (atom P >>= fun a => (branch P).many >>= fun as =>
      pure (a :: as)) r fun r => Completes .filled r u ∧ r.head? ≠ some '|' :=
    (follows_atom hP h).bind fun _ _ hr => (follows_branches hsound hP hr).bind fun _ _ hr =>
      .pure _ hr
  exact .spanned (hatoms.bind fun _ _ hr => .pure _ hr)

theorem follows_quantified [Onward P] {u : Text} (hsound : Sound P)
    (hP : FollowsPatterns f k P) (h : Completes .barred r u) :
    f.Follows (k + 1) (quantified P) r (Completes .ready · u) :=
  (follows_quantifiable hsound hP h).bind fun _ _ hr =>
    (follows_optional_quantifier hr.1 hr.2).bind fun _ _ hr => .pure _ hr

theorem follows_patternWithin (f : Fork) (depth : Nat) :
    FollowsPatterns f depth (patternWithin depth) := by
  -- Along the runs, what the other text has left goes on completing a pattern.
  induction depth with
  | zero => exact fun _ _ _ _ hk => absurd hk (Nat.not_lt_zero _)
  | succ depth hP =>
    intro r u h
    have hsound := sound_patternWithin depth
    have hruns : f.Follows (depth + 1) (quantified (patternWithin depth)).many r (· = u) := by
      refine .many (advances_quantified hsound) (I := (Completes .ready · u)) ?_ h
      intro s r hk hs hr
      rcases hr.ready_cases with hr | ⟨rfl, hclose⟩
      · rcases follows_quantified hsound hP hr hk hs with h | ⟨ns, t, r', hns, -, ht, hr'⟩
        · exact .inl h
        · exact .inr (.inl ⟨ns, t, r', hns, ht, hr'⟩)
      · rcases hs.head? with hfork | hhead
        · exact .inl (Nat.le_trans hfork (le_extent _ s))
        · exact .inr (.inr ⟨quantified_refuses (by rwa [Text.Closes, hhead]), rfl⟩)
    exact hruns.bind fun _ _ hr => .pure _ hr

/-- The reader gets as far into a text as any accepted pattern begins like it. -/
theorem le_extent_whole {w x y : Text} (h : Completes .ready (w ++ y) []) :
    w.length ≤ (whole (.start (w ++ x))).extent := by
  let f : Fork := ⟨w.length, x, y⟩
  have hstart : f.Meets (.start (w ++ x)) (w ++ y) := ⟨w, rfl, by simp [f, Place.start], rfl⟩
  have hpattern : w.length ≤ (pattern (.start (w ++ x))).extent := by
    have hwithin := follows_patternWithin f _ _ _ h (Nat.lt_succ_self _) hstart
    rcases hwithin with h | ⟨ns, t, r, hns, -, ht, rfl⟩
    · simp only [pattern]
      exact h
    · exact Nat.le_trans ht.nil (accepts_pattern.2 hns).le_extent
  unfold whole complete
  exact Nat.le_trans hpattern (extent_le_bind _)

end PatternAnatomy.Grammar
