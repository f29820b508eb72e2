import PatternAnatomy.Proofs.Reading.Acceptance

namespace PatternAnatomy

namespace Outcome

def reached : Option Obstacle → Nat
  | some o => o.reach
  | none => 0

def extent : Outcome α → Nat
  | accepted _ t passed => max t.offset (reached passed)
  | stuck o => o.reach

theorem reach_following (o : Obstacle) (earlier : Option Obstacle) :
    (o.following earlier).reach = max o.reach (reached earlier) := by
  cases earlier with
  | none => exact (Nat.max_zero _).symm
  | some e => exact o.reach_furthest e

theorem extent_after (r : Outcome α) (earlier : Option Obstacle) :
    (r.after earlier).extent = max r.extent (reached earlier) := by
  cases r with
  | stuck o => exact reach_following o earlier
  | accepted a t passed =>
    cases passed with
    | none =>
      simp only [after, extent, Obstacle.following?, reached]
      omega
    | some o =>
      simp only [after, extent, Obstacle.following?]
      rw [show reached (some (o.following earlier)) = _ from reach_following o earlier]
      simp only [reached]
      omega

theorem extent_within (c : Construct) (r : Outcome α) : (r.within c).extent = r.extent := by
  cases r with
  | stuck o => rfl
  | accepted a t passed => cases passed <;> rfl

end Outcome

namespace Reader

variable {p q : Reader α} {s t : Place} {a : α}

theorem Accepts.le_extent (h : p.Accepts s a t) : t.offset ≤ (p s).extent := by
  obtain ⟨passed, h⟩ := h
  rw [h]
  exact Nat.le_max_left _ _

/-- The reader does not go back behind the place that it begins at. -/
class Onward (p : Reader α) : Prop where
  le_extent : ∀ s, s.offset ≤ (p s).extent

theorem le_extent (p : Reader α) [hp : Onward p] (s : Place) : s.offset ≤ (p s).extent :=
  hp.le_extent s

instance (a : α) : Onward (pure a : Reader α) := ⟨fun s => Nat.le_max_left s.offset _⟩

theorem extent_le_bind {f : α → Reader β} [hf : ∀ a, Onward (f a)] (s : Place) :
    (p s).extent ≤ ((p >>= f) s).extent := by
  cases hp : p s with
  | stuck o =>
    rw [bind_of_stuck hp]
    exact Nat.le_refl _
  | accepted a t passed =>
    rw [bind_of_accepted hp, Outcome.extent_after, Outcome.extent]
    have ht := le_extent (f a) t
    omega

theorem extent_le_bind_of_accepts {f : α → Reader β} (h : p.Accepts s a t) :
    (f a t).extent ≤ ((p >>= f) s).extent := by
  obtain ⟨passed, hp⟩ := h
  rw [bind_of_accepted hp, Outcome.extent_after]
  exact Nat.le_max_left _ _

instance {f : α → Reader β} [Onward p] [∀ a, Onward (f a)] : Onward (p >>= f) :=
  ⟨fun s => Nat.le_trans (le_extent p s) (extent_le_bind s)⟩

theorem extent_le_orElse_left (hq : q.Refuses s) : (p s).extent ≤ ((p <|> q) s).extent := by
  obtain ⟨o', hq⟩ := hq
  show _ ≤ (orElse p q s).extent
  cases hp : p s with
  | accepted a t passed => simp only [orElse, hp, Nat.le_refl]
  | stuck o =>
    simp only [orElse, hp, hq, Outcome.extent, Outcome.reach_following, Outcome.reached]
    exact Nat.le_max_right _ _

theorem extent_le_orElse_right (hp : p.Refuses s) : (q s).extent ≤ ((p <|> q) s).extent := by
  obtain ⟨o, hp⟩ := hp
  show _ ≤ (orElse p q s).extent
  cases hq : q s with
  | accepted a t passed => simp only [orElse, hp, hq, Nat.le_refl]
  | stuck o' =>
    simp only [orElse, hp, hq, Outcome.extent, Outcome.reach_following]
    exact Nat.le_max_left _ _

instance [Onward p] [Onward q] : Onward (p <|> q) where
  le_extent s := by
    rcases p.accepts_or_refuses s with ⟨a, t, h⟩ | h
    · have hleft : (p <|> q) s = p s := by
        obtain ⟨passed, h⟩ := h
        show orElse p q s = _
        simp only [orElse, h]
      exact hleft ▸ le_extent p s
    · exact Nat.le_trans (le_extent q s) (extent_le_orElse_right h)

theorem extent_le_optional (p : Reader α) (s : Place) :
    (p s).extent ≤ (optional p s).extent := by
  cases h : p s with
  | accepted a t passed => simp only [optional, h, Outcome.extent, Nat.le_refl]
  | stuck o =>
    simp only [optional, h, Outcome.extent, Outcome.reached]
    exact Nat.le_max_right _ _

instance [Onward p] : Onward (optional p) :=
  ⟨fun s => Nat.le_trans (le_extent p s) (extent_le_optional p s)⟩

theorem extent_within (c : Construct) (p : Reader α) (s : Place) :
    (within c p s).extent = (p s).extent := Outcome.extent_within c (p s)

instance {c : Construct} [Onward p] : Onward (within c p) :=
  ⟨fun s => extent_within c p s ▸ le_extent p s⟩

theorem extent_spanned (p : Reader (Span → α)) (s : Place) :
    (spanned p s).extent = (p s).extent := by
  unfold spanned
  cases p s <;> rfl

instance {p : Reader (Span → α)} [Onward p] : Onward (spanned p) :=
  ⟨fun s => extent_spanned p s ▸ le_extent p s⟩

instance (test : Char → Bool) : Onward (satisfying test) where
  le_extent s := by
    unfold satisfying
    split
    · split
      · exact Nat.le_trans (Nat.le_succ _) (Nat.le_max_left _ _)
      · exact Nat.le_refl _
    · exact Nat.le_refl _

instance (c : Char) : Onward (char c) where
  le_extent s := by
    unfold char
    split
    · split
      · exact Nat.le_trans (Nat.le_succ _) (Nat.le_max_left _ _)
      · exact Nat.le_refl _
    · exact Nat.le_refl _

instance (v : Text) : Onward (exactly v) := by
  induction v with
  | nil => exact inferInstanceAs (Onward (pure ()))
  | cons c v ih => exact inferInstanceAs (Onward (char c >>= fun _ => exactly v))

instance : Onward endOfText where
  le_extent s := by
    unfold endOfText
    split
    · exact Nat.le_max_left _ _
    · exact Nat.le_refl _

theorem upTo_succ_of_accepts {n : Nat} (h : p.Accepts s a t) :
    p.upTo (n + 1) s = (p >>= fun a => p.upTo n >>= fun as => pure (a :: as)) s := by
  obtain ⟨passed, h⟩ := h
  rw [upTo_succ_of_accepted h, bind_of_accepted h]
  rfl

instance [Onward p] (n : Nat) : Onward (p.upTo n) := by
  induction n with
  | zero => exact inferInstanceAs (Onward (pure []))
  | succ n ih =>
    refine ⟨fun s => ?_⟩
    cases h : p s with
    | stuck o =>
      rw [upTo_succ_of_stuck h]
      exact Nat.le_max_left _ _
    | accepted a t passed =>
      rw [upTo_succ_of_accepts ⟨passed, h⟩]
      exact le_extent _ s

theorem extent_le_upTo [Onward p] (n : Nat) (s : Place) :
    (p s).extent ≤ (p.upTo (n + 1) s).extent := by
  cases h : p s with
  | stuck o =>
    rw [upTo_succ_of_stuck h]
    exact Nat.le_max_right _ _
  | accepted a t passed =>
    rw [upTo_succ_of_accepts ⟨passed, h⟩, ← h]
    exact extent_le_bind s

theorem extent_le_upTo_of_accepts {n : Nat} (h : p.Accepts s a t) :
    (p.upTo n t).extent ≤ (p.upTo (n + 1) s).extent := by
  rw [upTo_succ_of_accepts h]
  have hround := extent_le_bind_of_accepts (f := fun a => p.upTo n >>= fun as => pure (a :: as)) h
  exact Nat.le_trans (extent_le_bind t) hround

instance [Onward p] : Onward p.many := ⟨fun s => le_extent (p.upTo _) s⟩

instance [Onward p] : Onward p.many1 :=
  inferInstanceAs (Onward (p >>= fun a => p.many >>= fun as => pure (a :: as)))

end Reader

end PatternAnatomy
