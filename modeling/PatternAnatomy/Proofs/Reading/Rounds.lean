import PatternAnatomy.Proofs.Reading.Acceptance

namespace PatternAnatomy

namespace Reader

variable {p p' q : Reader α} {r r' : Reader (List α)} {s t : Place} {as : List α} {n m : Nat}

theorem bind_congr_at {f f' : α → Reader β} (h : p s = p' s)
    (hf : ∀ a t, p'.Accepts s a t → f a t = f' a t) : (p >>= f) s = (p' >>= f') s := by
  cases hp : p' s with
  | accepted a t passed =>
    rw [bind_of_accepted (h.trans hp), bind_of_accepted hp, hf a t ⟨passed, hp⟩]
  | stuck o => rw [bind_of_stuck (h.trans hp), bind_of_stuck hp]

theorem orElse_congr_at (h : q s = q' s) : (p <|> q) s = (p <|> q') s := by
  show orElse p q s = orElse p q' s
  simp only [orElse, h]

theorem within_congr_at (c : Construct) (h : p s = p' s) : within c p s = within c p' s := by
  simp only [within, h]

theorem spanned_congr_at {p p' : Reader (Span → α)} (h : p s = p' s) :
    spanned p s = spanned p' s := by
  simp only [spanned, h]

theorem upTo_congr_at (hp : p'.Advances) (h : ∀ t, s.Before t → p t = p' t) :
    p.upTo n s = p'.upTo n s := by
  induction n generalizing s with
  | zero => rfl
  | succ n ih =>
    have hs := h s (.refl s)
    cases ha : p' s with
    | stuck o => rw [upTo_succ_of_stuck ha, upTo_succ_of_stuck (hs.trans ha)]
    | accepted a t passed =>
      have ht : s.Precedes t := hp ⟨passed, ha⟩
      have hrest := ih fun u hu => h u (ht.before.trans hu)
      rw [upTo_succ_of_accepted ha, upTo_succ_of_accepted (hs.trans ha)]
      exact congrArg _ (bind_congr_at hrest fun _ _ _ => rfl)

/-- Reads one round and then what `r` reads; where there is no round, nothing. -/
def again (p : Reader α) (r : Reader (List α)) : Reader (List α) := fun s =>
  match p s with
  | .accepted a t passed => ((r.andThen fun as => accept (a :: as)) t).after passed
  | .stuck o => .accepted [] s (some o)

theorem upTo_succ : p.upTo (n + 1) = p.again (p.upTo n) := rfl

theorem again_congr_at (h : ∀ a t, p.Accepts s a t → r t = r' t) : p.again r s = p.again r' s := by
  unfold again
  split
  next a t passed ha =>
    exact congrArg _ (bind_congr_at (h a t ⟨passed, ha⟩) fun _ _ _ => rfl)
  next => rfl

/-- Whatever repeats itself behind each round reads what any number of rounds does that is larger
than the number of characters left. -/
theorem eq_upTo (hp : p.Advances) (hr : r = p.again r) (hn : s.rest.length < n) :
    r s = p.upTo n s := by
  induction n generalizing s with
  | zero => omega
  | succ n ih =>
    rw [hr, upTo_succ]
    refine again_congr_at fun a t ha => ih ?_
    have hlt := hp.length_lt ha
    omega

theorem upTo_eq_upTo (hp : p.Advances) (hn : s.rest.length < n) (hm : s.rest.length < m) :
    p.upTo n s = p.upTo m s := by
  induction n generalizing m s with
  | zero => omega
  | succ n ih =>
    obtain ⟨m, rfl⟩ : ∃ k, m = k + 1 := ⟨m - 1, by omega⟩
    rw [upTo_succ, upTo_succ]
    refine again_congr_at fun a t ha => ?_
    have hlt := hp.length_lt ha
    exact ih (by omega) (by omega)

theorem many_eq_again (hp : p.Advances) : p.many = p.again p.many := by
  funext s
  show p.upTo (s.rest.length + 1) s = _
  rw [upTo_succ]
  refine again_congr_at fun a t ha => ?_
  exact upTo_eq_upTo hp (hp.length_lt ha) (Nat.lt_succ_self _)

theorem eq_again_iff (hp : p.Advances) : r = p.again r ↔ r = p.many := by
  constructor
  · intro hr
    funext s
    exact eq_upTo hp hr (Nat.lt_succ_self _)
  · rintro rfl
    exact many_eq_again hp

theorem Repeats.length_le (hp : p.Advances) (h : p.Repeats s as t) :
    as.length + t.rest.length ≤ s.rest.length := by
  induction h with
  | done _ => exact Nat.le_of_eq (Nat.zero_add _)
  | more ha _ ih =>
    have hlt := hp.length_lt ha
    rw [List.length_cons]
    omega

/-- Repeating the reader ends where it refuses, after no more rounds than there are characters, each
of which leaves less of the text; no limit of rounds shows. -/
structure Repeatable (p : Reader α) : Prop where
  shortens : ∀ s a t, p.Accepts s a t → t.rest.length < s.rest.length
  ends : ∀ s, ∃ as t, p.many.Accepts s as t ∧ p.Repeats s as t ∧
    as.length + t.rest.length ≤ s.rest.length
  unlimited : ∀ r, r = p.again r ↔ r = p.many

theorem Advances.repeatable (hp : p.Advances) : p.Repeatable where
  shortens _ _ _ := hp.length_lt
  ends s := by
    obtain ⟨as, t, h⟩ := exists_repeats hp s
    exact ⟨as, t, (accepts_many hp).2 h, h, h.length_le hp⟩
  unlimited _ := eq_again_iff hp

end Reader

end PatternAnatomy
