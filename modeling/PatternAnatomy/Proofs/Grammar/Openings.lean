import PatternAnatomy.Proofs.Grammar.Foresight
import PatternAnatomy.Proofs.Reading.Merging

namespace PatternAnatomy

open Reader

namespace Obstacle

variable {a b o : Obstacle} {s : Place} {k : Nat}

/-- Nothing is expected but characters that open no construct. -/
def Plain (o : Obstacle) : Prop := ∀ e ∈ o.expected, ∃ c, e = some c ∧ Construct.openedBy? c = none

/-- A group could begin here as well as another construct. -/
def BeforeAtom (o : Obstacle) : Prop := some '(' ∈ o.expected ∧ o.context = .several

/-- The place is one for plain characters, or one where a group could begin and nothing smaller than
a group is being read. -/
def Settled (o : Obstacle) : Prop :=
  o.Plain ∨ some '(' ∈ o.expected ∧ (o.context = .several ∨ o.context = .within .group)

end Obstacle

open Obstacle

theorem Context.join_of_large {x y : Context}
    (h : (x = .several ∨ x = .within .group) ∨ (y = .several ∨ y = .within .group)) :
    x.join y = .several ∨ x.join y = .within .group := by
  rcases h with (rfl | rfl) | rfl | rfl
  · cases y <;> simp [join]
  · cases y with
    | within c => by_cases hc : Construct.group = c <;> simp [join, hc]
    | _ => simp [join]
  · cases x <;> simp [join]
  · cases x with
    | within c => by_cases hc : c = Construct.group <;> simp [join, hc]
    | _ => simp [join]

theorem Context.join_several_right (x : Context) : x.join .several = .several := by
  cases x <;> simp [join]

theorem Context.join_several_left (x : Context) : Context.several.join x = .several := by
  cases x <;> simp [join]

theorem Context.join_join_of_ne {c d : Construct} (h : c ≠ d) (x : Context) :
    (x.join (.within c)).join (.within d) = .several := by
  cases x with
  | within e => by_cases he : e = c <;> simp [join, he, h]
  | _ => simp [join, h]

namespace Obstacle

variable {a b o : Obstacle} {s : Place} {k : Nat}

theorem Plain.settled (h : o.Plain) : o.Settled := .inl h

theorem BeforeAtom.settled (h : o.BeforeAtom) : o.Settled := .inr ⟨h.1, .inl h.2⟩

theorem kept_plain : Kept Plain := by
  intro a b ha hb
  rcases furthest_cases a b with ⟨-, h⟩ | ⟨-, h⟩ | ⟨-, -, hexpected⟩
  · rwa [h]
  · rwa [h]
  · exact fun e he => ((hexpected e).1 he).elim (ha e) (hb e)

theorem kept_settled : Kept Settled := by
  intro a b ha hb
  rcases furthest_cases a b with ⟨-, h⟩ | ⟨-, h⟩ | ⟨-, hcontext, hexpected⟩
  · rwa [h]
  · rwa [h]
  rcases ha with ha | ⟨ha, hlarge⟩
  · rcases hb with hb | ⟨hb, hlarge⟩
    · exact .inl fun e he => ((hexpected e).1 he).elim (ha e) (hb e)
    · exact .inr ⟨(hexpected _).2 (.inr hb), hcontext ▸ Context.join_of_large (.inr hlarge)⟩
  · exact .inr ⟨(hexpected _).2 (.inl ha), hcontext ▸ Context.join_of_large (.inl hlarge)⟩

theorem Plain.within (h : o.Plain) (c : Construct) : (o.within c).Plain := h

theorem Settled.within_group (h : o.Settled) : (o.within .group).Settled := by
  refine h.imp (·.within .group) fun ⟨hgroup, hlarge⟩ => ⟨hgroup, .inr ?_⟩
  rcases hlarge with h | h <;> simp [Obstacle.within, Context.orWithin, h]

theorem plain_obstacle_nil (s : Place) : (s.obstacle []).Plain := nofun

theorem plain_obstacle {c : Char} (hc : Construct.openedBy? c = none) (s : Place) :
    (s.obstacle [some c]).Plain := by
  intro e he
  exact ⟨c, List.mem_singleton.1 he, hc⟩

theorem beyond_here (s : Place) (es : List (Option Char)) (P : Obstacle → Prop) :
    (s.obstacle es).Beyond s.offset P :=
  fun h => absurd h (Nat.lt_irrefl _)

theorem Beyond.settled (h : o.Beyond k Plain) : o.Beyond k Settled := fun hk => (h hk).settled

/-- At the end of what was read, at `t`, any atom could stand; or the obstacle lies further on. -/
structure AtEnd (t : Place) (o : Obstacle) : Prop where
  settled : o.Settled
  le_reach : t.offset ≤ o.reach
  before : o.reach = t.offset → o.BeforeAtom

theorem AtEnd.furthest {t : Place} (h : a.AtEnd t) (hb : b.Beyond t.offset Settled) :
    (a.furthest b).AtEnd t := by
  have hle := h.le_reach
  rcases furthest_cases a b with ⟨hreach, heq⟩ | ⟨-, heq⟩ | ⟨hreach, hcontext, hexpected⟩
  · rw [heq]
    exact ⟨hb (by omega), by omega, fun h => by omega⟩
  · rwa [heq]
  · have hat : a.reach = t.offset → (a.furthest b).BeforeAtom := by
      intro hat
      obtain ⟨hgroup, hseveral⟩ := h.before hat
      refine ⟨(hexpected _).2 (.inl hgroup), ?_⟩
      rw [hcontext, hseveral, Context.join_several_left]
    have hmax : (a.furthest b).reach = a.reach := by
      rw [reach_furthest]
      omega
    refine ⟨?_, hmax ▸ hle, fun h => hat (hmax ▸ h)⟩
    rcases Nat.eq_or_lt_of_le hle with hk | hk
    · exact (hat hk.symm).settled
    · exact kept_settled h.settled (hb (hreach ▸ hk))

theorem furthest_here (h : (a.furthest b).reach = k) (ha : k ≤ a.reach) (hb : k ≤ b.reach) :
    a.reach = k ∧ (a.furthest b).context = a.context.join b.context ∧
      a.expected ⊆ (a.furthest b).expected := by
  rw [reach_furthest] at h
  rcases furthest_cases a b with ⟨hreach, -⟩ | ⟨hreach, -⟩ | ⟨-, hcontext, hexpected⟩
  · omega
  · omega
  · exact ⟨by omega, hcontext, fun e he => (hexpected e).2 (.inl he)⟩

/-- What else is expected where any atom could stand belongs to no construct of its own. -/
theorem AtEnd.settled_of_obstacle {t : Place} {es : List (Option Char)} (h : o.AtEnd t) :
    ((t.obstacle es).furthest o).Settled := by
  rcases furthest_cases (t.obstacle es) o with
    ⟨-, heq⟩ | ⟨hreach, -⟩ | ⟨hreach, hcontext, hexpected⟩
  · rw [heq]
    exact h.settled
  · exact absurd hreach (Nat.not_lt.2 h.le_reach)
  · obtain ⟨hgroup, hseveral⟩ := h.before hreach.symm
    refine BeforeAtom.settled ⟨(hexpected _).2 (.inr hgroup), ?_⟩
    rw [hcontext, hseveral, Context.join_several_right]

end Obstacle

namespace Grammar

variable {s t : Place} {o : Obstacle} {n : Node} {P : Reader (List Node)} {α β : Type}

theorem plain_satisfying (test : Char → Bool) (s : Place) : (satisfying test).TellsOnly Plain s :=
  tellsOnly_satisfying (plain_obstacle_nil s)

theorem plain_char {c : Char} (hc : Construct.openedBy? c = none) (s : Place) :
    (char c).TellsOnly Plain s :=
  tellsOnly_char (plain_obstacle hc s)

theorem plain_exactly {v : Text} (hv : v.all fun c => (Construct.openedBy? c).isNone)
    (s : Place) : (exactly v).TellsOnly Plain s :=
  tellsOnly_exactly kept_plain fun c hc =>
    plain_obstacle (Option.isNone_iff_eq_none.1 (List.all_eq_true.1 hv c hc))

theorem plain_item (s : Place) : item.TellsOnly Plain s := by
  have hrange : range.TellsOnly Plain s :=
    .within (.spanned (.bind kept_plain (plain_satisfying _ s) fun _ t _ =>
      .bind kept_plain (plain_char rfl t) fun _ u _ =>
        .bind kept_plain (plain_satisfying _ u) fun _ _ _ => tellsOnly_pure _)) fun _ h => h
  have hsingle : singleChar.TellsOnly Plain s :=
    .spanned (.bind kept_plain (plain_satisfying _ s) fun _ _ _ => tellsOnly_pure _)
  exact hrange.orElse kept_plain hsingle

theorem plain_digits (s : Place) : digits.TellsOnly Plain s :=
  .many1 kept_plain (plain_satisfying _)

theorem plain_count (s : Place) : count.TellsOnly Plain s := by
  intro o ho
  have hdigits := plain_digits s
  unfold count at ho
  cases h : digits s with
  | stuck o' =>
    rw [h] at ho
    obtain rfl := Option.some.inj ho
    exact hdigits.of_stuck h
  | accepted ds t passed =>
    simp only [h] at ho
    split at ho
    · exact hdigits.of_accepted h o ho
    · -- A count that is too large expects nothing at all.
      obtain rfl := Option.some.inj ho
      exact nofun

theorem plain_groupName (s : Place) : groupName.TellsOnly Plain s :=
  .within (.bind kept_plain (plain_exactly (by decide) s) fun _ _ _ =>
    .bind kept_plain (.many1 kept_plain (plain_satisfying _)) fun _ t _ =>
      .bind kept_plain (plain_char rfl t) fun _ _ _ => tellsOnly_pure _) fun _ h => h

theorem plain_verbatim (s : Place) : verbatim.TellsOnly Plain s :=
  .within (.spanned (.bind kept_plain (.many1 kept_plain (plain_satisfying _)) fun _ _ _ =>
    tellsOnly_pure _)) fun _ h => h

theorem beyond_of_char {Q : Obstacle → Prop} {c : Char} {f : Unit → Reader α} (hQ : Kept Q)
    (hf : ∀ t, (f ()).TellsOnly Q t) : (char c >>= f).TellsOnly (Beyond s.offset Q) s :=
  .bind (hQ.beyond _) (tellsOnly_char (beyond_here s _ Q)) fun _ t _ =>
    (hf t).mono fun _ h _ => h

theorem beyond_anyCharacter (s : Place) : anyCharacter.TellsOnly (Beyond s.offset Plain) s :=
  .within (.spanned (beyond_of_char kept_plain fun _ => tellsOnly_pure _)) fun _ h => h

theorem beyond_escape (s : Place) : escape.TellsOnly (Beyond s.offset Plain) s :=
  .within (.spanned (beyond_of_char kept_plain fun _ => tellsOnly_pure _)) fun _ h => h

theorem beyond_charList (s : Place) : charList.TellsOnly (Beyond s.offset Plain) s :=
  .within (.spanned (beyond_of_char kept_plain fun t =>
    .bind kept_plain (.optional (plain_char rfl t)) fun _ _ _ =>
      .bind kept_plain (.many1 kept_plain plain_item) fun _ u _ =>
        .bind kept_plain (plain_char rfl u) fun _ _ _ => tellsOnly_pure _)) fun _ h => h

theorem beyond_sign {c : Char} {v : Text} (hv : v.all fun c => (Construct.openedBy? c).isNone)
    (r : Repetition) (s : Place) : (sign (c :: v) r).TellsOnly (Beyond s.offset Plain) s := by
  have hsign : (exactly (c :: v)).TellsOnly (Beyond s.offset Plain) s :=
    beyond_of_char kept_plain (plain_exactly hv)
  exact hsign.bind (kept_plain.beyond _) fun _ _ _ => tellsOnly_pure _

theorem beyond_bounds (s : Place) : bounds.TellsOnly (Beyond s.offset Plain) s :=
  beyond_of_char kept_plain fun t =>
    .bind kept_plain (.optional (plain_count t)) fun _ u _ =>
      .bind kept_plain (plain_char rfl u) fun _ v _ =>
        .bind kept_plain (.optional (plain_count v)) fun _ w _ =>
          .bind kept_plain (plain_char rfl w) fun _ _ _ => tellsOnly_pure _

theorem beyond_quantifier (s : Place) : quantifier.TellsOnly (Beyond s.offset Plain) s := by
  have hk := kept_plain.beyond s.offset
  refine .within (.spanned (.bind hk ?_ fun _ _ _ => tellsOnly_pure _)) fun _ h => h
  exact (beyond_sign (by decide) _ s).orElse hk ((beyond_sign (by decide) _ s).orElse hk
    ((beyond_sign (by decide) _ s).orElse hk ((beyond_sign (by decide) _ s).orElse hk
      ((beyond_sign (by decide) _ s).orElse hk (beyond_bounds s)))))

theorem beyond_group (hP : ∀ t, P.TellsOnly Settled t) (s : Place) :
    (group P).TellsOnly (Beyond s.offset Settled) s := by
  have hplain : ∀ {γ : Type} {p : Reader γ} {t : Place}, p.TellsOnly Plain t →
      p.TellsOnly Settled t := fun h => h.mono fun _ h => h.settled
  refine .within (.spanned (beyond_of_char kept_settled fun t => ?_))
    fun _ h hs => (h hs).within_group
  exact .bind kept_settled (hplain (.optional (plain_exactly (by decide) t))) fun _ u _ =>
    .bind kept_settled (hplain (.optional (plain_groupName u))) fun _ v _ =>
      .bind kept_settled (hP v) fun _ w _ =>
        .bind kept_settled (hplain (plain_char rfl w)) fun _ _ _ => tellsOnly_pure _

theorem stuck_symbol {k : Construct} {c : Char} {f : Span → α}
    (h : within k (spanned (char c >>= fun _ => pure f)) s = .stuck o) :
    o = (s.obstacle [some c]).within k := by
  cases hc : char c s with
  | stuck o' =>
    unfold Reader.within spanned at h
    rw [bind_of_stuck hc] at h
    obtain rfl := stuck_char hc
    exact (Outcome.stuck.inj h).symm
  | accepted x t passed =>
    unfold Reader.within spanned at h
    rw [bind_of_accepted hc] at h
    cases h

/-- A group that does not come past its first character expects this one. -/
theorem expected_of_stuck_group [Onward P] (h : group P s = .stuck o) (ho : o.reach = s.offset) :
    some '(' ∈ o.expected := by
  have hextent : (group P s).extent = s.offset := by rw [h, ← ho]; rfl
  cases hc : char '(' s with
  | stuck o' =>
    unfold group Reader.within spanned at h
    rw [bind_of_stuck hc] at h
    obtain rfl := stuck_char hc
    obtain rfl := Outcome.stuck.inj h
    exact List.mem_singleton_self _
  | accepted x t passed =>
    -- Behind the bracket the reader is further on than it is stuck.
    have hacc : (char '(').Accepts s x t := ⟨passed, hc⟩
    have ht : t.offset = s.offset + 1 := (accepts_char.1 hacc).offset
    unfold group at hextent
    rw [extent_within, extent_spanned] at hextent
    have hle := extent_le_bind_of_accepts hacc (f := fun _ => do
      let marker ← optional (exactly ['?', ':'])
      let name ← optional groupName
      let children ← P
      char ')'
      return Node.group children marker.isSome name)
    have hon := le_extent (do
      let marker ← optional (exactly ['?', ':'])
      let name ← optional groupName
      let children ← P
      char ')'
      return Node.group children marker.isSome name) t
    omega

theorem beyond_atom (hP : ∀ t, P.TellsOnly Settled t) (s : Place) :
    (atom P).TellsOnly (Beyond s.offset Settled) s := by
  have hk := kept_settled.beyond s.offset
  have hplain : ∀ {p : Reader Node}, p.TellsOnly (Beyond s.offset Plain) s →
      p.TellsOnly (Beyond s.offset Settled) s := fun h => h.mono fun _ h => h.settled
  have hverbatim := (plain_verbatim s).mono (Q := Beyond s.offset Settled) fun _ h _ => h.settled
  exact (hplain (beyond_anyCharacter s)).orElse hk ((hplain (beyond_escape s)).orElse hk
    ((hplain (beyond_charList s)).orElse hk (hverbatim.orElse hk (beyond_group hP s))))

/-- Where no atom is read every way into one is missed, or the obstacle is inside an atom. -/
theorem atEnd_of_stuck_atom [Onward P] (hP : ∀ t, P.TellsOnly Settled t)
    (h : atom P s = .stuck o) : o.AtEnd s := by
  have hon : ∀ {p : Reader Node} [Onward p] {x : Obstacle}, p s = .stuck x →
      s.offset ≤ x.reach := by
    intro p _ x hx
    have hle := le_extent p s
    rwa [hx] at hle
  have hbefore : o.reach = s.offset → o.BeforeAtom := by
    intro hreach
    obtain ⟨o₁, x, h₁, hx, rfl⟩ := stuck_orElse h
    obtain ⟨o₂, y, h₂, hy, rfl⟩ := stuck_orElse hx
    obtain ⟨o₃, z, h₃, hz, rfl⟩ := stuck_orElse hy
    obtain ⟨o₄, o₅, h₄, h₅, rfl⟩ := stuck_orElse hz
    obtain ⟨hreach, hcontext₁, hin₁⟩ := furthest_here hreach (hon hx) (hon h₁)
    obtain ⟨hreach, hcontext₂, hin₂⟩ := furthest_here hreach (hon hy) (hon h₂)
    obtain ⟨hreach, -, hin₃⟩ := furthest_here hreach (hon hz) (hon h₃)
    obtain ⟨hreach, -, hin₄⟩ := furthest_here hreach (hon h₅) (hon h₄)
    constructor
    · exact hin₁ (hin₂ (hin₃ (hin₄ (expected_of_stuck_group h₅ hreach))))
    · -- The first two ways are told in terms of different constructs.
      rw [hcontext₁, hcontext₂, stuck_symbol h₁, stuck_symbol h₂]
      exact Context.join_join_of_ne (by decide) _
  refine ⟨?_, hon h, hbefore⟩
  rcases Nat.eq_or_lt_of_le (hon h) with hk | hk
  · exact (hbefore hk.symm).settled
  · exact (beyond_atom hP s).of_stuck h hk

/-- What is told on the way to an accepted value lies no further on than that, or is settled. -/
def Settles (p : Reader α) : Prop :=
  ∀ ⦃s a t⦄, p.Accepts s a t → s.offset ≤ t.offset ∧ p.TellsOnly (Beyond t.offset Settled) s

theorem settles_pure (a : α) : Settles (pure a : Reader α) := by
  intro s b t h
  obtain ⟨rfl, rfl⟩ := accepts_pure.1 h
  exact ⟨Nat.le_refl _, tellsOnly_pure _⟩

theorem settles_char (c : Char) : Settles (char c) := by
  intro s x t h
  refine ⟨(accepts_char.1 h).before.offset_le, fun o ho => ?_⟩
  obtain ⟨passed, hs⟩ := h
  rw [hs, Outcome.obstacle?, accepted_char hs] at ho
  cases ho

namespace Settles

variable {p : Reader α}

theorem of_beyond (hp : ∀ s, p.TellsOnly (Beyond s.offset Settled) s)
    (hbefore : ∀ ⦃s a t⦄, p.Accepts s a t → s.Before t) : Settles p := by
  intro s a t h
  have hle := (hbefore h).offset_le
  exact ⟨hle, (hp s).mono fun _ ho => ho.mono hle⟩

theorem bind {f : α → Reader β} (hp : Settles p) (hf : ∀ a, Settles (f a)) :
    Settles (p >>= f) := by
  intro s b u h
  obtain ⟨a, t, ha, hb⟩ := accepts_bind.1 h
  obtain ⟨hst, hp⟩ := hp ha
  obtain ⟨htu, hfa⟩ := hf a hb
  refine ⟨Nat.le_trans hst htu, .bind (kept_settled.beyond _) ?_ fun a' t' ha' => ?_⟩
  · exact hp.mono fun _ ho => ho.mono htu
  · obtain ⟨rfl, rfl⟩ := ha.unique ha'
    exact hfa

theorem spanned {p : Reader (Span → α)} (hp : Settles p) : Settles (spanned p) := by
  intro s a t h
  obtain ⟨f, hf, -⟩ := accepts_spanned.1 h
  exact ⟨(hp hf).1, (hp hf).2.spanned⟩

theorem upTo (hp : Settles p)
    (hstuck : ∀ ⦃s⦄, p.Refuses s → p.TellsOnly (Beyond s.offset Settled) s) (n : Nat) :
    Settles (p.upTo n) := by
  induction n with
  | zero => exact settles_pure []
  | succ n ih =>
    intro s as t h
    have hk : Kept (Beyond t.offset Settled) := kept_settled.beyond _
    rcases p.accepts_or_refuses s with ⟨a, u, ha⟩ | hr
    · obtain ⟨bs, hbs, rfl⟩ := (accepts_upTo_succ_of_accepts ha).1 h
      obtain ⟨hsu, hpa⟩ := hp ha
      obtain ⟨hut, hrest⟩ := ih hbs
      refine ⟨Nat.le_trans hsu hut, ?_⟩
      unfold TellsOnly
      rw [upTo_succ_of_accepts ha]
      refine TellsOnly.bind hk (hpa.mono fun _ ho => ho.mono hut) fun a' u' ha' => ?_
      obtain ⟨rfl, rfl⟩ := ha.unique ha'
      exact hrest.bind hk fun _ _ _ => tellsOnly_pure _
    · obtain ⟨rfl, rfl⟩ := (accepts_upTo_succ_of_refuses hr).1 h
      refine ⟨Nat.le_refl _, fun o ho => ?_⟩
      obtain ⟨o', ho'⟩ := id hr
      rw [upTo_succ_of_stuck ho'] at ho
      obtain rfl := Option.some.inj ho
      exact (hstuck hr).of_stuck ho'

theorem many (hp : Settles p)
    (hstuck : ∀ ⦃s⦄, p.Refuses s → p.TellsOnly (Beyond s.offset Settled) s) : Settles p.many :=
  fun _ _ _ h => upTo hp hstuck _ h

end Settles

/-- Read as often as it can be, a reader of this kind ends where any atom could stand. -/
theorem exists_atEnd {p : Reader α} (hp : Settles p) (hadvances : p.Advances)
    (hstuck : ∀ ⦃s o⦄, p s = .stuck o → o.AtEnd s) (s : Place) :
    ∃ as t o, p.many s = .accepted as t (some o) ∧ o.AtEnd t := by
  have hrounds : ∀ n s, s.rest.length < n → ∃ as t o,
      p.upTo n s = .accepted as t (some o) ∧ s.offset ≤ t.offset ∧ o.AtEnd t := by
    intro n
    induction n with
    | zero => intro s hs; omega
    | succ n ih =>
      intro s hs
      cases h : p s with
      | stuck o => exact ⟨[], s, o, upTo_succ_of_stuck h, Nat.le_refl _, hstuck h⟩
      | accepted a u passed =>
        have ha : p.Accepts s a u := ⟨passed, h⟩
        have hlt := hadvances.length_lt ha
        obtain ⟨hsu, hpassed⟩ := hp ha
        obtain ⟨as, t, o, hrest, hut, ho⟩ := ih u (by omega)
        refine ⟨a :: as, t, o.following passed, ?_, Nat.le_trans hsu hut, ?_⟩
        · rw [upTo_succ_of_accepted h]
          show ((p.upTo n >>= fun as => accept (a :: as)) u).after passed = _
          rw [bind_of_accepted hrest]
          rfl
        · cases passed with
          | none => exact ho
          | some e => exact ho.furthest ((hpassed.of_accepted h e rfl).mono hut)
  obtain ⟨as, t, o, h, -, ho⟩ := hrounds _ s (Nat.lt_succ_self _)
  exact ⟨as, t, o, h, ho⟩

theorem settles_atom (hsound : Sound P) (hP : ∀ t, P.TellsOnly Settled t) : Settles (atom P) :=
  .of_beyond (beyond_atom hP) fun _ _ _ h => (spelled_of_atom hsound h).2.before

theorem settles_quantified [Onward P] (hsound : Sound P) (hP : ∀ t, P.TellsOnly Settled t) :
    Settles (quantified P) := by
  have hatom := settles_atom hsound hP
  have hbranch : Settles (branch P) := (settles_char '|').bind fun _ => hatom
  have hmissed : ∀ ⦃s⦄, (branch P).Refuses s →
      (branch P).TellsOnly (Beyond s.offset Settled) s := by
    intro s hr
    refine .bind (kept_settled.beyond _) (tellsOnly_char (beyond_here s _ _)) fun _ t hbar => ?_
    -- Behind the bar only an atom can have been missed.
    rintro o ho -
    have hatomless : (atom P).Refuses t := refuses_iff.2 fun n u hn =>
      refuses_iff.1 hr n u (accepts_branch.2 ⟨t, accepts_char.1 hbar, hn⟩)
    obtain ⟨o', ho'⟩ := hatomless
    rw [ho'] at ho
    obtain rfl := Option.some.inj ho
    exact (atEnd_of_stuck_atom hP ho').settled
  have hquantifiable : Settles (quantifiable P) :=
    .spanned ((hatom.bind fun _ => (hbranch.many hmissed).bind fun _ => settles_pure _).bind
      fun _ => settles_pure _)
  have hquantifier : Settles (optional quantifier) := by
    refine .of_beyond ?_ ?_
    · exact fun s => .optional ((beyond_quantifier s).mono fun _ ho => ho.settled)
    · intro s q t h
      rcases accepts_optional.1 h with ⟨n, rfl, hn⟩ | ⟨rfl, rfl, -⟩
      · obtain ⟨r, v, -, hv, -⟩ := accepts_quantifier.1 hn
        exact hv.before
      · exact .refl _
  exact hquantifiable.bind fun _ => hquantifier.bind fun _ => settles_pure _

theorem stuck_atom_of_quantified (h : quantified P s = .stuck o) : atom P s = .stuck o := by
  have hquantifiable : quantifiable P s = .stuck o :=
    stuck_of_bind (fun _ _ => not_refuses_bind not_refuses_optional fun _ _ => not_refuses_pure _) h
  have hatoms : ((atom P).separatedBy (char '|')) s = .stuck o := by
    unfold quantifiable Reader.spanned at hquantifiable
    split at hquantifiable
    next => cases hquantifiable
    next o' ho' =>
      obtain rfl := Outcome.stuck.inj hquantifiable
      exact stuck_of_bind (fun _ _ => not_refuses_pure _) ho'
  exact stuck_of_bind (fun _ _ => not_refuses_bind not_refuses_many fun _ _ => not_refuses_pure _)
    hatoms

theorem exists_atEnd_patternWithin (depth : Nat)
    (hP : ∀ t, (patternWithin depth).TellsOnly Settled t) (s : Place) :
    ∃ ns t o, patternWithin (depth + 1) s = .accepted ns t (some o) ∧ o.AtEnd t := by
  have hsound := sound_patternWithin depth
  have hstuck : ∀ ⦃s o⦄, quantified (patternWithin depth) s = .stuck o → o.AtEnd s :=
    fun s o h => atEnd_of_stuck_atom hP (stuck_atom_of_quantified h)
  obtain ⟨runs, t, o, h, ho⟩ :=
    exists_atEnd (settles_quantified hsound hP) (advances_quantified hsound) hstuck s
  refine ⟨runs.flatten, t, o, ?_, ho⟩
  rw [patternWithin, bind_of_accepted h]
  rfl

theorem settled_patternWithin (depth : Nat) : ∀ s, (patternWithin depth).TellsOnly Settled s := by
  induction depth with
  | zero => exact fun s => tellsOnly_pure []
  | succ depth ih =>
    intro s o ho
    obtain ⟨ns, t, o', h, ho'⟩ := exists_atEnd_patternWithin depth ih s
    rw [h] at ho
    obtain rfl := Option.some.inj ho
    exact ho'.settled

/-- Whatever the reader of a whole pattern is stuck at, either nothing is expected there that opens
a construct, or any atom is. -/
theorem settled_of_stuck (h : whole s = .stuck o) : o.Settled := by
  obtain ⟨ns, t, o', hpattern, ho'⟩ :=
    exists_atEnd_patternWithin s.rest.length (settled_patternWithin _) s
  have hpattern : pattern s = .accepted ns t (some o') := hpattern
  unfold whole complete at h
  rw [bind_of_accepted hpattern] at h
  cases hend : endOfText t with
  | accepted x u passed =>
    rw [bind_of_accepted hend] at h
    cases h
  | stuck e =>
    rw [bind_of_stuck hend] at h
    obtain rfl : e = t.obstacle [none] := by
      unfold endOfText at hend
      split at hend <;> cases hend
      rfl
    obtain rfl := Outcome.stuck.inj h
    exact ho'.settled_of_obstacle

end Grammar

end PatternAnatomy
