import PatternAnatomy.Proofs.Reading.Acceptance

namespace PatternAnatomy

/-- What of an obstacle is not put together from several ones. -/
structure Stop where
  reach : Nat
  position : Nat
  cause : Cause
  found : Option Char

/-- One of the things that an obstacle tells. -/
inductive Report where
  | stop (x : Stop)
  /-- Behind the characters that had been read `next` would have been accepted. -/
  | awaits (reach : Nat) (next : Option Char)
  | within (construct : Construct)

def Obstacle.stop (o : Obstacle) : Stop := ⟨o.reach, o.span.offset, o.cause, o.found⟩

/-- The stop at a character that is not what was expected, or at the end of the text. -/
def Place.stop (s : Place) : Stop := ⟨s.offset, s.offset, .unexpected, s.rest.head?⟩

/-- What is told at a place where `e` was expected and something else is found. -/
def Place.Misses (s : Place) (e : Option Char) (x : Report) : Prop :=
  x = .stop s.stop ∨ x = .awaits s.offset e

theorem Context.join_eq_within {a b : Context} {c : Construct} (h : a.join b = .within c) :
    a = .within c ∨ b = .within c := by
  cases a with
  | unnamed => exact .inr h
  | within d =>
    cases b with
    | unnamed => exact .inl h
    | within e | several =>
      simp only [join] at h
      split at h
      · exact .inl h
      · cases h
  | several => cases b <;> simp [join] at h

namespace Obstacle

def Tells (o : Obstacle) : Report → Prop
  | .stop x => o.stop = x
  | .awaits k e => o.reach = k ∧ e ∈ o.expected
  | .within c => o.context = .within c

variable {a b : Obstacle} {s : Place} {x : Report}

theorem tells_furthest (h : (a.furthest b).Tells x) : a.Tells x ∨ b.Tells x := by
  unfold furthest at h
  split at h
  next => exact .inr h
  next hle =>
    split at h
    next => exact .inl h
    next hge =>
      cases x with
      | stop x => exact .inl h
      | awaits k e =>
        obtain ⟨hreach, hmem⟩ := h
        rcases List.mem_append.1 hmem with hmem | hmem
        · exact .inl ⟨hreach, hmem⟩
        · -- What only the second expects is expected as far on.
          have hsame : a.reach = b.reach := by omega
          exact .inr ⟨hsame.symm.trans hreach, (List.mem_filter.1 hmem).1⟩
      | within c => exact Context.join_eq_within h

theorem tells_within {c : Construct} (h : (a.within c).Tells x) : a.Tells x ∨ x = .within c := by
  cases x with
  | stop | awaits => exact .inl h
  | within d =>
    have hcontext : a.context.orWithin c = .within d := h
    cases ha : a.context with
    | within e =>
      rw [ha] at hcontext
      exact .inl (ha.trans hcontext)
    | unnamed | several =>
      rw [ha] at hcontext
      exact .inr (congrArg Report.within (Context.within.inj hcontext).symm)

theorem tells_place {es : List (Option Char)} (h : (s.obstacle es).Tells x) :
    x = .stop s.stop ∨ ∃ e ∈ es, x = .awaits s.offset e := by
  cases x with
  | stop x => exact .inl (congrArg Report.stop h.symm)
  | awaits k e =>
    obtain ⟨rfl, he⟩ := h
    exact .inr ⟨e, he, rfl⟩
  | within c => cases h

theorem tells_place_single {e : Option Char} (h : (s.obstacle [e]).Tells x) : s.Misses e x := by
  rcases tells_place h with h | ⟨e', he, hx⟩
  · exact .inl h
  · obtain rfl := List.mem_singleton.1 he
    exact .inr hx

end Obstacle

namespace Outcome

def Tells (x : Report) : Outcome α → Prop
  | accepted _ _ passed => ∃ o, passed = some o ∧ o.Tells x
  | stuck o => o.Tells x

variable {x : Report} {r : Outcome α} {earlier : Option Obstacle}

theorem tells_following {o : Obstacle} (h : (o.following earlier).Tells x) :
    o.Tells x ∨ ∃ e, earlier = some e ∧ e.Tells x := by
  cases earlier with
  | none => exact .inl h
  | some e => exact (Obstacle.tells_furthest h).imp_right fun he => ⟨e, rfl, he⟩

theorem tells_after (h : (r.after earlier).Tells x) :
    r.Tells x ∨ ∃ e, earlier = some e ∧ e.Tells x := by
  cases r with
  | stuck o => exact tells_following h
  | accepted a t passed =>
    obtain ⟨o, ho, hx⟩ := h
    cases passed with
    | none => exact .inr ⟨o, ho, hx⟩
    | some n =>
      obtain rfl := Option.some.inj ho
      exact (tells_following hx).imp_left fun hn => ⟨n, rfl, hn⟩

theorem tells_within {c : Construct} (h : (r.within c).Tells x) : r.Tells x ∨ x = .within c := by
  cases r with
  | stuck o => exact Obstacle.tells_within h
  | accepted a t passed =>
    obtain ⟨o, ho, hx⟩ := h
    obtain ⟨n, rfl, rfl⟩ := Option.map_eq_some_iff.1 ho
    exact (Obstacle.tells_within hx).imp_left fun hn => ⟨n, rfl, hn⟩

end Outcome

namespace Reader

/-- Whether the reader tells this from here, of what it is stuck at or of what it has passed. -/
def Tells (p : Reader α) (s : Place) (x : Report) : Prop := (p s).Tells x

def Stops (p : Reader α) (s : Place) (x : Stop) : Prop := (p s).Tells (.stop x)

/-- The values that a reader accepts one behind the other, as far as one follows it. -/
inductive Chain (p : Reader α) : Place → List α → Place → Prop where
  | nil : Chain p s [] s
  | cons (h : p.Accepts s a t) (hs : Chain p t as u) : Chain p s (a :: as) u

variable {p q : Reader α} {s t u : Place} {x : Report}

theorem not_tells_pure (a : α) : ¬ (pure a : Reader α).Tells s x := by
  rintro ⟨o, ho, -⟩
  cases ho

theorem tells_bind {f : α → Reader β} (h : (p >>= f).Tells s x) :
    p.Tells s x ∨ ∃ a t, p.Accepts s a t ∧ (f a).Tells t x := by
  unfold Tells at h
  cases hp : p s with
  | stuck o =>
    rw [bind_of_stuck hp] at h
    exact .inl (by rwa [Tells, hp])
  | accepted a t passed =>
    rw [bind_of_accepted hp] at h
    rcases Outcome.tells_after h with h | he
    · exact .inr ⟨a, t, ⟨passed, hp⟩, h⟩
    · exact .inl (by rwa [Tells, hp])

theorem tells_orElse (h : (p <|> q).Tells s x) : p.Tells s x ∨ q.Tells s x := by
  have hdef : (p <|> q) s = orElse p q s := rfl
  unfold Tells at h ⊢
  rw [hdef, orElse] at h
  cases hp : p s with
  | accepted a t passed =>
    rw [hp] at h
    exact .inl h
  | stuck o =>
    rw [hp] at h
    cases hq : q s with
    | accepted a t passed =>
      rw [hq] at h
      exact .inr h
    | stuck o' =>
      rw [hq] at h
      rcases Outcome.tells_following h with h | ⟨e, he, hx⟩
      · exact .inr h
      · obtain rfl := Option.some.inj he
        exact .inl hx

theorem tells_optional (h : (optional p).Tells s x) : p.Tells s x := by
  unfold Tells at h ⊢
  rw [optional] at h
  cases hp : p s with
  | accepted a t passed =>
    rw [hp] at h
    exact h
  | stuck o =>
    rw [hp] at h
    obtain ⟨e, he, hx⟩ := h
    obtain rfl := Option.some.inj he
    exact hx

theorem tells_within {c : Construct} (h : (within c p).Tells s x) :
    p.Tells s x ∨ x = .within c :=
  Outcome.tells_within h

theorem tells_spanned {p : Reader (Span → α)} (h : (spanned p).Tells s x) : p.Tells s x := by
  unfold Tells at h
  rw [spanned] at h
  unfold Tells
  cases hp : p s <;> rw [hp] at h <;> exact h

theorem tells_satisfying {test : Char → Bool} (h : (satisfying test).Tells s x) :
    x = .stop s.stop ∧ (satisfying test).Refuses s := by
  unfold Tells at h
  cases hs : satisfying test s with
  | accepted c t passed =>
    rw [hs] at h
    obtain ⟨o, rfl, -⟩ := h
    unfold satisfying at hs
    split at hs
    · split at hs <;> cases hs
    · cases hs
  | stuck o =>
    rw [hs] at h
    refine ⟨?_, o, hs⟩
    have ho : o = s.obstacle [] := by
      unfold satisfying at hs
      split at hs
      · split at hs <;> cases hs
        rfl
      · cases hs
        rfl
    rcases Obstacle.tells_place (ho ▸ h) with h | ⟨e, he, -⟩
    · exact h
    · exact absurd he List.not_mem_nil

theorem tells_char {c : Char} (h : (char c).Tells s x) : s.Misses (some c) x := by
  unfold Tells char at h
  split at h
  · split at h
    · obtain ⟨o, ho, -⟩ := h
      cases ho
    · exact Obstacle.tells_place_single h
  · exact Obstacle.tells_place_single h

theorem tells_exactly {v : Text} (h : (exactly v).Tells s x) :
    ∃ w c z t, v = w ++ c :: z ∧ s.Reads w t ∧ t.Misses (some c) x := by
  induction v generalizing s with
  | nil => exact absurd h (not_tells_pure ())
  | cons c v ih =>
    rcases tells_bind (p := char c) h with h | ⟨_, t, hc, h⟩
    · exact ⟨[], c, v, s, rfl, .refl s, tells_char h⟩
    · obtain ⟨w, d, z, u, rfl, hr, hx⟩ := ih h
      exact ⟨c :: w, d, z, u, rfl, (accepts_char.1 hc).trans hr, hx⟩

theorem tells_endOfText (h : endOfText.Tells s x) : s.Misses none x := by
  unfold Tells endOfText at h
  split at h
  · obtain ⟨o, ho, -⟩ := h
    cases ho
  · exact Obstacle.tells_place_single h

theorem tells_complete (h : (complete p).Tells s x) :
    p.Tells s x ∨ ∃ a t, p.Accepts s a t ∧ t.Misses none x := by
  rcases tells_bind h with h | ⟨a, t, ha, h⟩
  · exact .inl h
  · rcases tells_bind h with h | ⟨_, u, -, h⟩
    · exact .inr ⟨a, t, ha, tells_endOfText h⟩
    · exact absurd h (not_tells_pure a)

theorem chain_of_accepts_upTo {n : Nat} {as : List α} (h : (p.upTo n).Accepts s as t) :
    p.Chain s as t := by
  induction n generalizing s as with
  | zero =>
    obtain ⟨rfl, rfl⟩ := accepts_accept.1 h
    exact .nil
  | succ n ih =>
    rcases p.accepts_or_refuses s with ⟨a, u, ha⟩ | hr
    · obtain ⟨bs, hbs, rfl⟩ := (accepts_upTo_succ_of_accepts ha).1 h
      exact .cons ha (ih hbs)
    · obtain ⟨rfl, rfl⟩ := (accepts_upTo_succ_of_refuses hr).1 h
      exact .nil

theorem tells_upTo {n : Nat} (h : (p.upTo n).Tells s x) :
    ∃ as t, p.Chain s as t ∧ p.Tells t x := by
  induction n generalizing s with
  | zero => exact absurd h (not_tells_pure [])
  | succ n ih =>
    unfold Tells at h
    cases hp : p s with
    | stuck o =>
      rw [upTo_succ_of_stuck hp] at h
      obtain ⟨e, he, hx⟩ := h
      obtain rfl := Option.some.inj he
      exact ⟨[], s, .nil, by rwa [Tells, hp]⟩
    | accepted a t passed =>
      rw [upTo_succ_of_accepted hp] at h
      rcases Outcome.tells_after h with h | he
      · rcases tells_bind (p := p.upTo n) h with h | ⟨as, u, -, h⟩
        · obtain ⟨as, u, hs, hu⟩ := ih h
          exact ⟨a :: as, u, .cons ⟨passed, hp⟩ hs, hu⟩
        · exact absurd h (not_tells_pure (a :: as))
      · exact ⟨[], s, .nil, by rwa [Tells, hp]⟩

theorem tells_many (h : p.many.Tells s x) : ∃ as t, p.Chain s as t ∧ p.Tells t x := tells_upTo h

theorem tells_many1 (h : p.many1.Tells s x) : ∃ as t, p.Chain s as t ∧ p.Tells t x := by
  rcases tells_bind h with h | ⟨a, t, ha, h⟩
  · exact ⟨[], s, .nil, h⟩
  · rcases tells_bind h with h | ⟨as, u, -, h⟩
    · obtain ⟨as, u, hs, hu⟩ := tells_many h
      exact ⟨a :: as, u, .cons ha hs, hu⟩
    · exact absurd h (not_tells_pure (a :: as))

theorem tells_many1_satisfying {test : Char → Bool} (h : (satisfying test).many1.Tells s x) :
    ∃ v t, (satisfying test).Repeats s v t ∧ x = .stop t.stop := by
  obtain ⟨v, t, hv, hstop⟩ := tells_many1 h
  obtain ⟨hx, ht⟩ := tells_satisfying hstop
  refine ⟨v, t, ?_, hx⟩
  clear h hstop hx
  induction hv with
  | nil => exact .done ht
  | cons hc _ ih => exact .more hc (ih ht)

end Reader

end PatternAnatomy
