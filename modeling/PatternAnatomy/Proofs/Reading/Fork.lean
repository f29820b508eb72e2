import PatternAnatomy.Proofs.Reading.Extent

namespace PatternAnatomy

/-- Two texts that are the same up to an offset: what the one that is read has from there on, and
what the other one has. -/
structure Fork where
  offset : Nat
  rest : Text
  other : Text

namespace Fork

/-- At the place `s` of the one text, which is not behind the fork, the other text has `r` left. -/
def Meets (f : Fork) (s : Place) (r : Text) : Prop :=
  ∃ w, s.rest = w ++ f.rest ∧ f.offset = s.offset + w.length ∧ r = w ++ f.other

namespace Meets

variable {f : Fork} {s t : Place} {v r : Text} {c : Char}

theorem of_reads (h : f.Meets s r) (hv : s.Reads v t) :
    f.offset ≤ t.offset ∨ ∃ r', r = v ++ r' ∧ f.Meets t r' := by
  obtain ⟨w, hs, ho, rfl⟩ := h
  have ht := hv.offset
  rcases List.append_eq_append_iff.1 (hv.rest.symm.trans hs) with ⟨w', rfl, hrest⟩ | ⟨v', rfl, -⟩
  · right
    rw [List.length_append] at ho
    exact ⟨w' ++ f.other, by simp, w', hrest, by omega, rfl⟩
  · left
    rw [List.length_append] at ht
    omega

/-- Of the characters that come next in the other text, the reader's has all, or those in front of
the fork. -/
theorem append (h : f.Meets s (v ++ r)) : (∃ t, s.Reads v t ∧ f.Meets t r) ∨
    ∃ w z t, v = w ++ z ∧ z ≠ [] ∧ s.Reads w t ∧ t.offset = f.offset := by
  obtain ⟨w, hs, ho, hr⟩ := h
  rcases List.append_eq_append_iff.1 hr with ⟨w', rfl, rfl⟩ | ⟨z, rfl, hz⟩
  · left
    rw [List.append_assoc] at hs
    rw [List.length_append] at ho
    exact ⟨_, .of_append hs, w', rfl, by simp only; omega, rfl⟩
  · by_cases hne : z = []
    · subst hne
      exact .inl ⟨_, .of_append (by simpa using hs), [], rfl, by simp [ho], by simpa using hz.symm⟩
    · exact .inr ⟨w, z, _, rfl, hne, .of_append hs, ho.symm⟩

theorem cons (h : f.Meets s (c :: r)) :
    f.offset ≤ s.offset ∨ ∃ t, s.Reads [c] t ∧ f.Meets t r := by
  obtain ⟨w, hs, ho, hr⟩ := h
  cases w with
  | nil => exact .inl (Nat.le_of_eq ho)
  | cons d w =>
    obtain ⟨rfl, rfl⟩ := List.cons.inj hr
    rw [List.length_cons] at ho
    exact .inr ⟨_, .of_append (v := [c]) hs, w, rfl, by simp only [List.length_singleton]; omega,
      rfl⟩

theorem head? (h : f.Meets s r) : f.offset ≤ s.offset ∨ s.rest.head? = r.head? := by
  obtain ⟨w, hs, ho, rfl⟩ := h
  cases w with
  | nil => exact .inl (Nat.le_of_eq ho)
  | cons d w => exact .inr (by rw [hs]; rfl)

theorem nil (h : f.Meets s []) : f.offset ≤ s.offset := by
  obtain ⟨w, -, ho, hw⟩ := h
  obtain ⟨rfl, -⟩ := List.append_eq_nil_iff.1 hw.symm
  exact Nat.le_of_eq ho

end Meets

open Reader

/-- From places where the other text has `r` left, and the one text less than `k` characters, the
reader gets to the fork or else comes to a place where what the other text has left is in `R`. -/
def Follows (f : Fork) (k : Nat) (p : Reader α) (r : Text) (R : Text → Prop) : Prop :=
  ∀ ⦃s⦄, s.rest.length < k → f.Meets s r → f.offset ≤ (p s).extent ∨
    ∃ a t r', p.Accepts s a t ∧ s.Before t ∧ f.Meets t r' ∧ R r'

namespace Follows

variable {f : Fork} {k : Nat} {p : Reader α} {r v : Text} {R R' : Text → Prop} {c : Char}

theorem mono (h : f.Follows k p r R) (hR : ∀ r', R r' → R' r') : f.Follows k p r R' := by
  intro s hk hs
  rcases h hk hs with h | ⟨a, t, r', ha, hst, ht, hr⟩
  · exact .inl h
  · exact .inr ⟨a, t, r', ha, hst, ht, hR r' hr⟩

/-- A choice does what one of its ways does, if the next character leaves the reader no other. -/
theorem of_extent_le {q : Reader α} [Onward q] (h : f.Follows k p r R)
    (haccepts : ∀ {s a t}, p.Accepts s a t → q.Accepts s a t)
    (hextent : ∀ {s : Place}, s.rest.head? = r.head? → (p s).extent ≤ (q s).extent) :
    f.Follows k q r R := by
  intro s hk hs
  rcases hs.head? with hfork | hhead
  · exact .inl (Nat.le_trans hfork (le_extent q s))
  rcases h hk hs with h | ⟨a, t, r', ha, hst, ht, hr⟩
  · exact .inl (Nat.le_trans h (hextent hhead))
  · exact .inr ⟨a, t, r', haccepts ha, hst, ht, hr⟩

theorem pure (a : α) (h : R r) : f.Follows k (pure a : Reader α) r R :=
  fun s _ hs => .inr ⟨a, s, r, accepts_pure.2 ⟨rfl, rfl⟩, .refl s, hs, h⟩

theorem bind {g : α → Reader β} [∀ a, Onward (g a)] (hp : f.Follows k p r R)
    (hg : ∀ a r', R r' → f.Follows k (g a) r' R') : f.Follows k (p >>= g) r R' := by
  intro s hk hs
  rcases hp hk hs with h | ⟨a, t, r', ha, hst, ht, hr⟩
  · exact .inl (Nat.le_trans h (extent_le_bind s))
  · have hle := hst.length_le
    rcases hg a r' hr (by omega) ht with h | ⟨b, u, r'', hb, htu, hu, hr⟩
    · exact .inl (Nat.le_trans h (extent_le_bind_of_accepts ha))
    · exact .inr ⟨b, u, r'', accepts_bind.2 ⟨a, t, ha, hb⟩, hst.trans htu, hu, hr⟩

theorem char (c : Char) (r : Text) : f.Follows k (char c) (c :: r) (· = r) := by
  intro s hk hs
  rcases hs.cons with h | ⟨t, hr, ht⟩
  · exact .inl (Nat.le_trans h (le_extent _ s))
  · exact .inr ⟨(), t, r, accepts_char.2 hr, hr.before, ht, rfl⟩

theorem behind_char {g : Unit → Reader β} [∀ a, Onward (g a)]
    (hg : ∀ a, f.Follows k (g a) r R) :
    f.Follows (k + 1) (Reader.char c >>= g) (c :: r) R := by
  intro s hk hs
  rcases hs.cons with h | ⟨t, hr, ht⟩
  · exact .inl (Nat.le_trans h (le_extent _ s))
  · have hlen := hr.length
    have hc : (Reader.char c).Accepts s () t := accepts_char.2 hr
    rw [List.length_singleton] at hlen
    rcases hg () (by omega) ht with h | ⟨b, u, r', hb, htu, hu, hr'⟩
    · exact .inl (Nat.le_trans h (extent_le_bind_of_accepts hc))
    · exact .inr ⟨b, u, r', accepts_bind.2 ⟨(), t, hc, hb⟩, hr.before.trans htu, hu, hr'⟩

theorem exactly (v r : Text) : f.Follows k (exactly v) (v ++ r) (· = r) := by
  induction v with
  | nil => exact .pure () rfl
  | cons c v ih =>
    refine bind (p := Reader.char c) (g := fun _ => Reader.exactly v) (.char c (v ++ r)) ?_
    rintro _ _ rfl
    exact ih

theorem optional (h : f.Follows k p r R) : f.Follows k (optional p) r R := by
  intro s hk hs
  rcases h hk hs with h | ⟨a, t, r', ha, hst, ht, hr⟩
  · exact .inl (Nat.le_trans h (extent_le_optional p s))
  · exact .inr ⟨some a, t, r', accepts_optional.2 (.inl ⟨a, rfl, ha⟩), hst, ht, hr⟩

theorem optional_of_refuses (h : ∀ s, f.Meets s r → f.offset ≤ (p s).extent ∨ p.Refuses s)
    (hr : R r) : f.Follows k (Reader.optional p) r R := by
  intro s hk hs
  rcases h s hs with h | h
  · exact .inl (Nat.le_trans h (extent_le_optional p s))
  · exact .inr ⟨none, s, r, accepts_optional.2 (.inr ⟨rfl, rfl, h⟩), .refl s, hs, hr⟩

/-- The next character alone tells that the reader refuses. -/
theorem optional_of_head? [Onward p] (h : ∀ s : Place, s.rest.head? = r.head? → p.Refuses s)
    (hr : R r) : f.Follows k (Reader.optional p) r R := by
  refine optional_of_refuses (fun s hs => ?_) hr
  rcases hs.head? with hfork | hhead
  · exact .inl (Nat.le_trans hfork (le_extent p s))
  · exact .inr (h s hhead)

theorem within {c : Construct} (h : f.Follows k p r R) : f.Follows k (within c p) r R := by
  intro s hk hs
  rcases h hk hs with h | ⟨a, t, r', ha, hst, ht, hr⟩
  · exact .inl (extent_within c p s ▸ h)
  · exact .inr ⟨a, t, r', accepts_within.2 ha, hst, ht, hr⟩

theorem spanned {p : Reader (Span → α)} (h : f.Follows k p r R) :
    f.Follows k (spanned p) r R := by
  intro s hk hs
  rcases h hk hs with h | ⟨a, t, r', ha, hst, ht, hr⟩
  · exact .inl (extent_spanned p s ▸ h)
  · exact .inr ⟨_, t, r', accepts_spanned.2 ⟨a, ha, rfl⟩, hst, ht, hr⟩

/-- A repetition, where `I` holds of what the other text has left at each round. -/
theorem many [Onward p] (hp : p.Advances) {I : Text → Prop}
    (hstep : ∀ ⦃s r⦄, s.rest.length < k → f.Meets s r → I r → f.offset ≤ (p s).extent ∨
      (∃ a t r', p.Accepts s a t ∧ f.Meets t r' ∧ I r') ∨ (p.Refuses s ∧ R r))
    (hr : I r) : f.Follows k p.many r R := by
  have hrounds : ∀ n ⦃s r⦄, s.rest.length < n → s.rest.length < k → f.Meets s r → I r →
      f.offset ≤ (p.upTo n s).extent ∨
        ∃ as t r', (p.upTo n).Accepts s as t ∧ s.Before t ∧ f.Meets t r' ∧ R r' := by
    intro n
    induction n with
    | zero => intro s r hn; omega
    | succ n ih =>
      intro s r hn hk hs hr
      rcases hstep hk hs hr with h | ⟨a, t, r', ha, ht, hr⟩ | ⟨h, hr⟩
      · exact .inl (Nat.le_trans h (extent_le_upTo n s))
      · have hlt := hp.length_lt ha
        obtain ⟨v, -, hv⟩ := hp ha
        rcases ih (by omega) (by omega) ht hr with h | ⟨as, u, r'', has, htu, hu, hr⟩
        · exact .inl (Nat.le_trans h (extent_le_upTo_of_accepts ha))
        · have hround := (accepts_upTo_succ_of_accepts ha).2 ⟨as, has, rfl⟩
          exact .inr ⟨a :: as, u, r'', hround, hv.before.trans htu, hu, hr⟩
      · exact .inr ⟨[], s, r, (accepts_upTo_succ_of_refuses h).2 ⟨rfl, rfl⟩, .refl s, hs, hr⟩
  intro s hk hs
  exact hrounds _ (Nat.lt_succ_self _) hk hs hr

end Follows

end Fork

end PatternAnatomy
