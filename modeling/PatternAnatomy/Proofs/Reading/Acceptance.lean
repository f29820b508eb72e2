import Mathlib.Tactic.Common
import PatternAnatomy.Reading.Reader

namespace PatternAnatomy

namespace Text

theorem not_cons_prefix {c : Char} {v r : Text} (h : r.head? ≠ some c) : ¬ c :: v <+: r := by
  rintro ⟨w, rfl⟩
  exact h rfl

theorem takeWhile_run {test : Char → Bool} {v r : Text} (hv : ∀ c ∈ v, test c = true)
    (hr : ∀ c, r.head? = some c → test c = false) : (v ++ r).takeWhile test = v := by
  have hend : r.takeWhile test = [] := by
    cases r with
    | nil => rfl
    | cons c r => simp [hr c rfl]
  rw [List.takeWhile_append_of_pos hv, hend, List.append_nil]

/-- Two runs of one kind that begin at the same place are the same. -/
theorem run_unique {test : Char → Bool} {v w r r' : Text} (hv : ∀ c ∈ v, test c = true)
    (hw : ∀ c ∈ w, test c = true) (hr : ∀ c, r.head? = some c → test c = false)
    (hr' : ∀ c, r'.head? = some c → test c = false) (h : v ++ r = w ++ r') : v = w := by
  rw [← takeWhile_run hv hr, h, takeWhile_run hw hr']

end Text

/-- The characters `v` stand between the places `s` and `t` of a text. -/
structure Place.Reads (s : Place) (v : Text) (t : Place) : Prop where
  rest : s.rest = v ++ t.rest
  offset : t.offset = s.offset + v.length

namespace Place.Reads

variable {s t u : Place} {v w : Text}

theorem eq_of_eq (hr : s.rest = t.rest) (ho : s.offset = t.offset) : s = t := by
  cases s
  cases t
  simp_all

theorem refl (s : Place) : s.Reads [] s := ⟨rfl, rfl⟩

theorem trans (h : s.Reads v t) (h' : t.Reads w u) : s.Reads (v ++ w) u where
  rest := by rw [h.rest, h'.rest, List.append_assoc]
  offset := by
    have ht := h.offset
    have hu := h'.offset
    rw [List.length_append]
    omega

theorem nil_iff : s.Reads [] t ↔ t = s := by
  constructor
  · intro h
    exact eq_of_eq h.rest.symm h.offset
  · rintro rfl
    exact refl t

theorem append_iff : s.Reads (v ++ w) u ↔ ∃ t, s.Reads v t ∧ t.Reads w u := by
  constructor
  · intro h
    refine ⟨⟨s.offset + v.length, w ++ u.rest⟩, ⟨by simpa using h.rest, rfl⟩, rfl, ?_⟩
    have ho := h.offset
    rw [List.length_append] at ho
    show u.offset = s.offset + v.length + w.length
    omega
  · rintro ⟨t, h, h'⟩
    exact h.trans h'

theorem cons_iff {c : Char} : s.Reads (c :: v) t ↔ ∃ u, s.Reads [c] u ∧ u.Reads v t :=
  append_iff (v := [c])

theorem length (h : s.Reads v t) : t.rest.length + v.length = s.rest.length := by
  rw [h.rest, List.length_append]
  omega

theorem of_append {r : Text} (h : s.rest = v ++ r) : s.Reads v ⟨s.offset + v.length, r⟩ := ⟨h, rfl⟩

theorem length_span (h : s.Reads v t) : Span.between s.offset t.offset = ⟨s.offset, v.length⟩ := by
  have ho := h.offset
  simp only [Span.between, Span.mk.injEq, true_and]
  omega

theorem stop_span (h : s.Reads v t) : (Span.between s.offset t.offset).stop = t.offset := by
  apply Span.stop_between
  have ho := h.offset
  omega

theorem head? (h : s.Reads v t) (hv : v ≠ []) : s.rest.head? = v.head? := by
  obtain ⟨c, v, rfl⟩ := List.exists_cons_of_ne_nil hv
  simp [h.rest]

end Place.Reads

/-- Reading on from `s` leads to `t`. -/
def Place.Before (s t : Place) : Prop := ∃ v, s.Reads v t

namespace Place.Before

variable {s t u : Place}

theorem refl (s : Place) : s.Before s := ⟨[], .refl s⟩

theorem trans (h : s.Before t) (h' : t.Before u) : s.Before u := by
  obtain ⟨v, hv⟩ := h
  obtain ⟨w, hw⟩ := h'
  exact ⟨v ++ w, hv.trans hw⟩

theorem offset_le (h : s.Before t) : s.offset ≤ t.offset := by
  obtain ⟨v, hv⟩ := h
  have ho := hv.offset
  omega

theorem length_le (h : s.Before t) : t.rest.length ≤ s.rest.length := by
  obtain ⟨v, hv⟩ := h
  have hlen := hv.length
  omega

theorem rest_eq_drop {p : Text} (h : (Place.start p).Before t) : t.rest = p.drop t.offset := by
  obtain ⟨v, hv⟩ := h
  have hp : p = v ++ t.rest := hv.rest
  have ho : t.offset = v.length := by simpa [start] using hv.offset
  rw [ho, hp, List.drop_left]

end Place.Before

/-- What is read from the beginning of a text on are its first characters. -/
theorem Place.Reads.eq_take {p v : Text} {t : Place} (h : (Place.start p).Reads v t) :
    v = p.take t.offset := by
  have hp : p = v ++ t.rest := h.rest
  have ho : t.offset = v.length := by simpa [start] using h.offset
  rw [ho, hp, List.take_left]

theorem Place.Reads.before {s t : Place} {v : Text} (h : s.Reads v t) : s.Before t := ⟨v, h⟩

/-- Some of the text stands between the two places. -/
def Place.Precedes (s t : Place) : Prop := ∃ v, v ≠ [] ∧ s.Reads v t

namespace Place.Precedes

variable {s t u : Place}

theorem before (h : s.Precedes t) : s.Before t := by
  obtain ⟨v, -, hv⟩ := h
  exact hv.before

theorem trans_before (h : s.Precedes t) (h' : t.Before u) : s.Precedes u := by
  obtain ⟨v, hne, hv⟩ := h
  obtain ⟨w, hw⟩ := h'
  exact ⟨v ++ w, List.append_ne_nil_of_left_ne_nil hne w, hv.trans hw⟩

theorem length_lt (h : s.Precedes t) : t.rest.length < s.rest.length := by
  obtain ⟨v, hne, hv⟩ := h
  have hlen := hv.length
  have hpos := List.length_pos_iff.2 hne
  omega

end Place.Precedes

theorem Place.Before.trans_precedes {s t u : Place} (h : s.Before t) (h' : t.Precedes u) :
    s.Precedes u := by
  obtain ⟨v, hv⟩ := h
  obtain ⟨w, hne, hw⟩ := h'
  exact ⟨v ++ w, List.append_ne_nil_of_right_ne_nil v hne, hv.trans hw⟩

/-- The last character of a span is the one that was read last. -/
theorem Place.Before.stop_span {s t u : Place} {c : Char} (h : s.Before t) (hc : t.Reads [c] u) :
    (Span.between s.offset u.offset).stop = t.offset + 1 := by
  have hle := h.offset_le
  have hu : u.offset = t.offset + 1 := hc.offset
  rw [← hu]
  apply Span.stop_between
  omega

theorem Place.Before.last?_span {s t u : Place} {c : Char} (h : s.Before t) (hc : t.Reads [c] u) :
    (Span.between s.offset u.offset).last? = some t.offset := by
  have hstop := h.stop_span hc
  have hle := h.offset_le
  have hlength : (Span.between s.offset u.offset).length ≠ 0 := by
    simp only [Span.stop, Span.between] at hstop ⊢
    omega
  rw [Span.last?, if_neg hlength, hstop, Nat.add_sub_cancel]

theorem Outcome.after_eq_accepted {r : Outcome α} {earlier : Option Obstacle} {a : α} {t : Place} :
    (∃ o, r.after earlier = .accepted a t o) ↔ ∃ o, r = .accepted a t o := by
  cases r <;> simp [after]

namespace Reader

def Accepts (p : Reader α) (s : Place) (a : α) (t : Place) : Prop :=
  ∃ passed, p s = .accepted a t passed

def Refuses (p : Reader α) (s : Place) : Prop := ∃ o, p s = .stuck o

/-- What is accepted is never empty. -/
def Advances (p : Reader α) : Prop :=
  ∀ ⦃s a t⦄, p.Accepts s a t → ∃ v, v ≠ [] ∧ s.Reads v t

/-- The values that a reader accepts one behind the other, until it refuses. -/
inductive Repeats (p : Reader α) : Place → List α → Place → Prop where
  | done (h : p.Refuses s) : Repeats p s [] s
  | more (h : p.Accepts s a t) (hs : Repeats p t as u) : Repeats p s (a :: as) u

variable {p q : Reader α} {s t u : Place} {a b : α}

theorem accepts_or_refuses (p : Reader α) (s : Place) :
    (∃ a t, p.Accepts s a t) ∨ p.Refuses s := by
  cases h : p s with
  | accepted a t passed => exact .inl ⟨a, t, passed, h⟩
  | stuck o => exact .inr ⟨o, h⟩

theorem Accepts.unique (h : p.Accepts s a t) (h' : p.Accepts s b u) : a = b ∧ t = u := by
  obtain ⟨o, h⟩ := h
  obtain ⟨o', h'⟩ := h'
  rw [h] at h'
  cases h'
  exact ⟨rfl, rfl⟩

theorem refuses_iff : p.Refuses s ↔ ∀ a t, ¬ p.Accepts s a t := by
  constructor
  · rintro ⟨o, h⟩ a t ⟨o', h'⟩
    rw [h] at h'
    cases h'
  · intro h
    rcases p.accepts_or_refuses s with ⟨a, t, hat⟩ | hr
    · exact absurd hat (h a t)
    · exact hr

theorem Accepts.not_refuses (h : p.Accepts s a t) : ¬ p.Refuses s :=
  fun hr => refuses_iff.1 hr a t h

@[simp] theorem accepts_pure : (pure a : Reader α).Accepts s b t ↔ b = a ∧ t = s := by
  simp only [Accepts, pure_apply, Outcome.accepted.injEq]
  constructor
  · rintro ⟨_, rfl, rfl, _⟩
    exact ⟨rfl, rfl⟩
  · rintro ⟨rfl, rfl⟩
    exact ⟨none, rfl, rfl, rfl⟩

theorem accepts_accept : (accept a).Accepts s b t ↔ b = a ∧ t = s := accepts_pure

theorem accepts_bind {f : α → Reader β} {b : β} :
    (p >>= f).Accepts s b u ↔ ∃ a t, p.Accepts s a t ∧ (f a).Accepts t b u := by
  constructor
  · rintro ⟨o, h⟩
    rcases p.accepts_or_refuses s with ⟨a, t, passed, hp⟩ | ⟨o', hp⟩
    · rw [bind_of_accepted hp] at h
      exact ⟨a, t, ⟨passed, hp⟩, Outcome.after_eq_accepted.1 ⟨o, h⟩⟩
    · rw [bind_of_stuck hp] at h
      cases h
  · rintro ⟨a, t, ⟨o, hp⟩, hf⟩
    rw [Accepts, bind_of_accepted hp]
    exact Outcome.after_eq_accepted.2 hf

theorem accepts_andThen {f : α → Reader β} {b : β} :
    (p.andThen f).Accepts s b u ↔ ∃ a t, p.Accepts s a t ∧ (f a).Accepts t b u := accepts_bind

theorem accepts_orElse : (p <|> q).Accepts s a t ↔
    p.Accepts s a t ∨ (p.Refuses s ∧ q.Accepts s a t) := by
  have hdef : (p <|> q) s = orElse p q s := rfl
  simp only [Accepts, Refuses, hdef, orElse]
  cases p s with
  | accepted a' t' passed => simp
  | stuck o => cases q s <;> simp

/-- Where no two ways accept, their order does not matter. -/
theorem accepts_orElse_of_disjoint
    (hpq : ∀ {b c u v}, p.Accepts s b u → ¬ q.Accepts s c v) :
    (p <|> q).Accepts s a t ↔ p.Accepts s a t ∨ q.Accepts s a t := by
  rw [accepts_orElse]
  constructor
  · rintro (h | ⟨-, h⟩)
    · exact .inl h
    · exact .inr h
  · rintro (h | h)
    · exact .inl h
    · exact .inr ⟨refuses_iff.2 fun _ _ h' => hpq h' h, h⟩

theorem refuses_orElse : (p <|> q).Refuses s ↔ p.Refuses s ∧ q.Refuses s := by
  have hdef : (p <|> q) s = orElse p q s := rfl
  simp only [Refuses, hdef, orElse]
  cases p s with
  | accepted a' t' passed => simp
  | stuck o => cases q s <;> simp

theorem accepts_optional {o : Option α} : (optional p).Accepts s o t ↔
    (∃ a, o = some a ∧ p.Accepts s a t) ∨ (o = none ∧ t = s ∧ p.Refuses s) := by
  simp only [Accepts, Refuses, optional]
  cases p s with
  | accepted a' t' passed =>
    simp only [Outcome.accepted.injEq]
    constructor
    · rintro ⟨_, rfl, rfl, _⟩
      exact .inl ⟨a', rfl, passed, rfl, rfl, rfl⟩
    · rintro (⟨_, rfl, _, rfl, rfl, _⟩ | ⟨_, _, _, h⟩)
      · exact ⟨passed, rfl, rfl, rfl⟩
      · cases h
  | stuck o' => simp [eq_comm]

theorem accepts_within {c : Construct} : (within c p).Accepts s a t ↔ p.Accepts s a t := by
  simp only [Accepts, within]
  cases p s <;> simp [Outcome.within]

theorem accepts_spanned {p : Reader (Span → α)} : (spanned p).Accepts s a t ↔
    ∃ f, p.Accepts s f t ∧ a = f (.between s.offset t.offset) := by
  simp only [Accepts, spanned]
  cases p s <;> simp
  grind

theorem accepts_satisfying {test : Char → Bool} {c : Char} :
    (satisfying test).Accepts s c t ↔ s.Reads [c] t ∧ test c = true := by
  constructor
  · rintro ⟨o, h⟩
    unfold satisfying at h
    split at h
    next d cs hs =>
      split at h
      next hd =>
        cases h
        exact ⟨⟨hs, rfl⟩, hd⟩
      next => cases h
    next => cases h
  · rintro ⟨h, hc⟩
    refine ⟨none, ?_⟩
    have hr : s.rest = c :: t.rest := h.rest
    simp only [satisfying, hr, hc, ↓reduceIte, Outcome.accepted.injEq, true_and, and_true]
    exact Place.Reads.eq_of_eq rfl h.offset.symm

theorem refuses_satisfying {test : Char → Bool} :
    (satisfying test).Refuses s ↔ ∀ c, s.rest.head? = some c → test c = false := by
  simp only [refuses_iff, accepts_satisfying, not_and, Bool.not_eq_true]
  constructor
  · intro h c hc
    obtain ⟨r, hr⟩ := List.head?_eq_some_iff.1 hc
    exact h c _ (.of_append hr)
  · intro h c t hr
    exact h c (by simp [hr.rest])

theorem accepts_anyChar {c : Char} : anyChar.Accepts s c t ↔ s.Reads [c] t := by
  simp [anyChar, accepts_satisfying]

theorem accepts_char {c : Char} {x : Unit} : (char c).Accepts s x t ↔ s.Reads [c] t := by
  constructor
  · rintro ⟨o, h⟩
    unfold char at h
    split at h
    next d cs hs =>
      split at h
      next hd =>
        subst hd
        cases h
        exact ⟨hs, rfl⟩
      next => cases h
    next => cases h
  · intro h
    refine ⟨none, ?_⟩
    have hr : s.rest = c :: t.rest := h.rest
    simp only [char, hr, ↓reduceIte, Outcome.accepted.injEq, true_and, and_true]
    exact Place.Reads.eq_of_eq rfl h.offset.symm

theorem refuses_char {c : Char} : (char c).Refuses s ↔ s.rest.head? ≠ some c := by
  simp only [refuses_iff, accepts_char]
  constructor
  · intro h hc
    obtain ⟨r, hr⟩ := List.head?_eq_some_iff.1 hc
    exact h () _ (.of_append hr)
  · intro h _ t hr
    exact h (by simp [hr.rest])

theorem accepts_exactly {v : Text} {x : Unit} : (exactly v).Accepts s x t ↔ s.Reads v t := by
  induction v generalizing s with
  | nil => simp [exactly, accepts_accept, Place.Reads.nil_iff]
  | cons c v ih =>
    rw [exactly, accepts_andThen, Place.Reads.cons_iff]
    simp only [accepts_char, ih]
    exact ⟨fun ⟨_, u, h⟩ => ⟨u, h⟩, fun ⟨u, h⟩ => ⟨(), u, h⟩⟩

theorem refuses_exactly {v : Text} : (exactly v).Refuses s ↔ ¬ v <+: s.rest := by
  simp only [refuses_iff, accepts_exactly]
  constructor
  · rintro h ⟨r, hr⟩
    exact h () _ (.of_append hr.symm)
  · intro h _ t hr
    exact h ⟨t.rest, hr.rest.symm⟩

theorem accepts_endOfText {x : Unit} : endOfText.Accepts s x t ↔ t = s ∧ s.rest = [] := by
  simp only [Accepts, endOfText]
  split
  next h => simp [h, eq_comm]
  next h => simp [h]

theorem accepts_complete : (complete p).Accepts s a t ↔ p.Accepts s a t ∧ t.rest = [] := by
  simp only [complete, accepts_bind, accepts_endOfText, accepts_pure]
  constructor
  · rintro ⟨a', t', h, _, _, ⟨rfl, hr⟩, rfl, rfl⟩
    exact ⟨h, hr⟩
  · rintro ⟨h, hr⟩
    exact ⟨a, t, h, (), t, ⟨rfl, hr⟩, rfl, rfl⟩

theorem Advances.length_lt (hp : p.Advances) (h : p.Accepts s a t) :
    t.rest.length < s.rest.length :=
  Place.Precedes.length_lt (hp h)

theorem upTo_succ_of_accepted {n : Nat} {passed : Option Obstacle}
    (h : p s = .accepted a t passed) : p.upTo (n + 1) s =
      (((p.upTo n).andThen fun as => accept (a :: as)) t).after passed := by
  simp only [upTo, h]

theorem upTo_succ_of_stuck {n : Nat} {o : Obstacle} (h : p s = .stuck o) :
    p.upTo (n + 1) s = .accepted [] s (some o) := by
  simp only [upTo, h]

theorem accepts_upTo_succ_of_accepts {n : Nat} {as : List α} (h : p.Accepts s a u) :
    (p.upTo (n + 1)).Accepts s as t ↔ ∃ bs, (p.upTo n).Accepts u bs t ∧ as = a :: bs := by
  obtain ⟨passed, hp⟩ := h
  have hstep : (p.upTo (n + 1)).Accepts s as t ↔
      ((p.upTo n).andThen fun bs => accept (a :: bs)).Accepts u as t := by
    simp only [Accepts, upTo_succ_of_accepted hp]
    exact Outcome.after_eq_accepted
  rw [hstep, accepts_andThen]
  simp only [accepts_accept]
  constructor
  · rintro ⟨bs, _, hs, rfl, rfl⟩
    exact ⟨bs, hs, rfl⟩
  · rintro ⟨bs, hs, rfl⟩
    exact ⟨bs, t, hs, rfl, rfl⟩

theorem accepts_upTo_succ_of_refuses {n : Nat} {as : List α} (h : p.Refuses s) :
    (p.upTo (n + 1)).Accepts s as t ↔ as = [] ∧ t = s := by
  obtain ⟨o, hp⟩ := h
  simp [Accepts, upTo_succ_of_stuck hp, eq_comm]

theorem accepts_upTo (hp : p.Advances) {n : Nat} {as : List α} (hn : s.rest.length < n) :
    (p.upTo n).Accepts s as t ↔ p.Repeats s as t := by
  -- Every round but the last leaves fewer characters, so that the rounds never run out.
  induction n generalizing s as with
  | zero => omega
  | succ n ih =>
    rcases p.accepts_or_refuses s with ⟨a, u, h⟩ | h
    · have hlt := hp.length_lt h
      rw [accepts_upTo_succ_of_accepts h]
      constructor
      · rintro ⟨bs, hs, rfl⟩
        exact .more h ((ih (by omega)).1 hs)
      · rintro (h' | ⟨h', hs⟩)
        · exact absurd h' h.not_refuses
        · obtain ⟨rfl, rfl⟩ := h.unique h'
          exact ⟨_, (ih (by omega)).2 hs, rfl⟩
    · rw [accepts_upTo_succ_of_refuses h]
      constructor
      · rintro ⟨rfl, rfl⟩
        exact .done h
      · rintro (_ | ⟨h', _⟩)
        · exact ⟨rfl, rfl⟩
        · exact absurd h h'.not_refuses

theorem accepts_many (hp : p.Advances) {as : List α} :
    p.many.Accepts s as t ↔ p.Repeats s as t :=
  accepts_upTo hp (Nat.lt_succ_self _)

theorem exists_repeats (hp : p.Advances) (s : Place) : ∃ as t, p.Repeats s as t := by
  rcases p.accepts_or_refuses s with ⟨a, t, h⟩ | h
  · have hlt := hp.length_lt h
    obtain ⟨as, u, hs⟩ := exists_repeats hp t
    exact ⟨a :: as, u, .more h hs⟩
  · exact ⟨[], s, .done h⟩
termination_by s.rest.length

theorem accepts_many1 (hp : p.Advances) {as : List α} : p.many1.Accepts s as t ↔
    ∃ a bs u, p.Accepts s a u ∧ p.Repeats u bs t ∧ as = a :: bs := by
  simp only [many1, accepts_bind, accepts_many hp, accepts_pure]
  constructor
  · rintro ⟨a, u, h, bs, _, hs, rfl, rfl⟩
    exact ⟨a, bs, u, h, hs, rfl⟩
  · rintro ⟨a, bs, u, h, hs, rfl⟩
    exact ⟨a, u, h, bs, t, hs, rfl, rfl⟩

theorem advances_satisfying (test : Char → Bool) : (satisfying test).Advances := by
  intro s c t h
  exact ⟨[c], by simp, (accepts_satisfying.1 h).1⟩

theorem repeats_satisfying {test : Char → Bool} {v : Text} : (satisfying test).Repeats s v t ↔
    s.Reads v t ∧ (∀ c ∈ v, test c = true) ∧ ∀ c, t.rest.head? = some c → test c = false := by
  constructor
  · intro h
    induction h with
    | done h => exact ⟨.refl _, by simp, refuses_satisfying.1 h⟩
    | more h _ ih =>
      obtain ⟨hr, hc⟩ := accepts_satisfying.1 h
      obtain ⟨hrs, hcs, hend⟩ := ih
      exact ⟨hr.trans hrs, by simpa using ⟨hc, hcs⟩, hend⟩
  · rintro ⟨hr, hv, hend⟩
    induction v generalizing s with
    | nil =>
      obtain rfl := Place.Reads.nil_iff.1 hr
      exact .done (refuses_satisfying.2 hend)
    | cons c v ih =>
      obtain ⟨u, hc, hr⟩ := Place.Reads.cons_iff.1 hr
      have htest : test c = true := hv c (by simp)
      exact .more (accepts_satisfying.2 ⟨hc, htest⟩) (ih hr fun d hd => hv d (by simp [hd]))

theorem accepts_many1_satisfying {test : Char → Bool} {v : Text} :
    (satisfying test).many1.Accepts s v t ↔ v ≠ [] ∧ s.Reads v t ∧ (∀ c ∈ v, test c = true) ∧
      ∀ c, t.rest.head? = some c → test c = false := by
  rw [accepts_many1 (advances_satisfying test)]
  constructor
  · rintro ⟨c, w, u, h, hs, rfl⟩
    exact ⟨by simp, repeats_satisfying.1 (.more h hs)⟩
  · rintro ⟨hv, h⟩
    obtain ⟨c, w, rfl⟩ := List.exists_cons_of_ne_nil hv
    rcases repeats_satisfying.2 h with _ | ⟨hc, hw⟩
    exact ⟨c, w, _, hc, hw, rfl⟩

end Reader

end PatternAnatomy
