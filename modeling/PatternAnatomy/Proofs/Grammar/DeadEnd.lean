import PatternAnatomy.Proofs.Grammar.Beginning
import PatternAnatomy.Proofs.Grammar.Rereading

namespace PatternAnatomy.Grammar

open Node

variable {m : Stage} {s t u : Place} {v w x y : Text}

theorem Completes.of_group {nonCapturing : Bool} {name : Option Text}
    (hname : ∀ w ∈ name, IsName w) (hv : v.head? ≠ some '?')
    (h : Completes m ('(' :: groupHeader nonCapturing name ++ v) w) :
    ∃ t, Completes .ready v (')' :: t) := by
  have h := h.barred_of_opensAtom rfl (.inl (by simp))
  generalize hs : '(' :: groupHeader nonCapturing name ++ v = z at h
  cases h with
  | stop hm => exact absurd rfl hm
  | character hc =>
    obtain ⟨rfl, -⟩ := List.cons.inj hs
    exact absurd hc (by decide)
  | charList => cases hs
  | group hname' hin =>
    have hv' := hin.head?_ne_of_ready (c := '?') (by decide) (by decide)
    have hsame := groupHeader_append_cancel hname hname' hv hv' (List.cons.inj hs).2
    exact ⟨_, hsame ▸ hin⟩

/-- At one stage of the reader no text that begins with `v` is the rest of a pattern. The first two
characters keep what is behind them out of sight. -/
structure DeadEnd (m : Stage) (v : Text) : Prop where
  length : 2 ≤ v.length
  head : m ≠ .filled → ∃ c v', v = c :: v' ∧ OpensAtom c
  not_completes : ∀ y w, ¬ Completes .filled (v ++ y) w

namespace DeadEnd

theorem of_count {es ds : Text} (hes : es = [] ∨ ∃ cs, Repetition.IsCount cs ∧ es = cs ++ [','])
    (hne : ds ≠ []) (hds : ∀ d ∈ ds, d.isDigit = true) (hlarge : Nat.pow 2 32 ≤ digitsValue ds) :
    DeadEnd .filled ('{' :: es ++ ds) where
  length := by
    have hpos := List.length_pos_iff.2 hne
    simp only [List.length_append, List.length_cons]
    omega
  head hm := absurd rfl hm
  not_completes := by
    intro y w h
    rw [List.append_assoc] at h
    rcases h.filled_cases with h | ⟨t, ht, -⟩ | ⟨r, q, t, hq, ht, -⟩
    · exact h.head?_ne_of_ready (c := '{') (by decide) (by decide) rfl
    · cases ht
    · exact absurd (hq.small ht.symm hes hds) (Nat.not_lt.2 hlarge)

theorem filled (h : DeadEnd m v) : DeadEnd .filled v where
  length := h.length
  head hm := absurd rfl hm
  not_completes := h.not_completes

theorem behind_character {c : Char} (hc : c = '.' ∨ c = '\\') (h : DeadEnd .filled v) :
    DeadEnd m (c :: v) where
  length := Nat.le_succ_of_le h.length
  head _ := ⟨c, v, rfl, .inl (by rcases hc with rfl | rfl <;> simp)⟩
  not_completes y w hc' := h.not_completes y w (hc'.of_character (hc.imp_right .inl))

theorem behind_bar (h : DeadEnd .barred v) : DeadEnd .filled ('|' :: v) where
  length := Nat.le_succ_of_le h.length
  head hm := absurd rfl hm
  not_completes y w hc := h.not_completes y w hc.of_bar.of_barred

/-- An atom is read again in front of any text that begins with the same two characters. -/
theorem behind_atom {n : Node} (hs : n.Spelled s t) (hn : n.IsAtom) (hx : s.Reads x t)
    (hv : t.Reads v u) (h : DeadEnd .filled v) : DeadEnd m (x ++ v) where
  length := by
    rw [List.length_append]
    exact Nat.le_trans h.length (Nat.le_add_left _ _)
  head _ := by
    obtain ⟨c, hc, hopens⟩ := hs.opensAtom_of_isAtom hn
    have hne : x ++ v ≠ [] := by
      intro hnil
      have hlength := h.length
      rw [(List.append_eq_nil_iff.1 hnil).2] at hlength
      cases hlength
    rw [(hx.trans hv).head? hne] at hc
    obtain ⟨v', hv'⟩ := List.head?_eq_some_iff.1 hc
    exact ⟨c, v', hv', hopens⟩
  not_completes := by
    intro y w hc
    have hr := Text.replaces_append h.length y u.rest
    obtain ⟨n', hmoved, hs'⟩ := hs.spliced hr (Nat.zero_le _) (hv.rest ▸ List.suffix_refl _)
    rw [moved_zero] at hmoved
    have hrest : (s.spliced 0 (v ++ u.rest) (v ++ y)).rest = x ++ (v ++ y) :=
      Place.rest_spliced (hv.rest ▸ hx.rest)
    have hrest' : (t.spliced 0 (v ++ u.rest) (v ++ y)).rest = v ++ y :=
      Place.rest_spliced (v := []) hv.rest
    have hbehind := hs'.completes_behind_atom (m := .filled) (u := w) (hmoved ▸ hn)
      (by rwa [hrest, ← List.append_assoc])
    exact h.not_completes y w (hrest' ▸ hbehind)

theorem behind_quantifier {r : Repetition} (hw : r.Written w) (h : DeadEnd .ready v) :
    DeadEnd .filled (w ++ v) where
  length := by
    rw [List.length_append]
    exact Nat.le_trans h.length (Nat.le_add_left _ _)
  head hm := absurd rfl hm
  not_completes := by
    intro y u hc
    obtain ⟨c, v', rfl, hopens⟩ := h.head (by simp)
    obtain ⟨d, hd, -, hno⟩ := hw.head?
    rw [List.append_assoc] at hc
    -- The quantifier is read to its end, as no sign goes on with the first character of an atom.
    have hr : (Place.start (w ++ (c :: v' ++ y))).Reads w _ := .of_append rfl
    have hend : ¬ Repetition.Continues w (c :: v' ++ y) := fun hq =>
      hopens.ne (by decide) (by decide) (Option.some.inj hq.2)
    have hq := accepts_quantifier.2 ⟨r, w, hw, hr, hend, rfl⟩
    have hbar : (w ++ (c :: v' ++ y)).head? ≠ some '|' := by
      rw [List.head?_append, hd]
      rintro ⟨⟩
      exact hno (by simp)
    have hready := completes_of_optional_quantifier
      (Reader.accepts_optional.2 (.inl ⟨_, rfl, hq⟩)) hbar hc
    exact h.not_completes y u hready.filled_of_ready

theorem in_group {nonCapturing : Bool} {name : Option Text} (hname : ∀ w ∈ name, IsName w)
    (h : DeadEnd .ready v) : DeadEnd m ('(' :: groupHeader nonCapturing name ++ v) where
  length := by
    have hlength := h.length
    simp only [List.length_append, List.length_cons]
    omega
  head _ := ⟨'(', _, rfl, .inl (by simp)⟩
  not_completes := by
    intro y w hc
    obtain ⟨c, v', rfl, hopens⟩ := h.head (by simp)
    rw [List.append_assoc] at hc
    have hmark : (c :: v' ++ y).head? ≠ some '?' := fun hq =>
      hopens.ne (by decide) (by decide) (Option.some.inj hq)
    obtain ⟨t, ht⟩ := hc.of_group hname hmark
    exact h.not_completes y _ ht.filled_of_ready

end DeadEnd

end PatternAnatomy.Grammar
