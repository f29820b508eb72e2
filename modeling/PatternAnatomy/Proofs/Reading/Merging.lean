import PatternAnatomy.Proofs.Reading.Extent

namespace PatternAnatomy

namespace Obstacle

variable {a b o : Obstacle} {P : Obstacle → Prop} {e : Option Char} {k : Nat}

/-- The furthest of two obstacles is one of them, or at the same place it is both. -/
theorem furthest_cases (a b : Obstacle) :
    (a.reach < b.reach ∧ a.furthest b = b) ∨ (b.reach < a.reach ∧ a.furthest b = a) ∨
      (a.reach = b.reach ∧ (a.furthest b).context = a.context.join b.context ∧
        ∀ e, e ∈ (a.furthest b).expected ↔ e ∈ a.expected ∨ e ∈ b.expected) := by
  by_cases hab : a.reach < b.reach
  · exact .inl ⟨hab, if_pos hab⟩
  by_cases hba : b.reach < a.reach
  · exact .inr (.inl ⟨hba, by rw [furthest, if_neg hab, if_pos hba]⟩)
  · refine .inr (.inr ⟨by omega, ?_⟩)
    rw [furthest, if_neg hab, if_neg hba]
    refine ⟨rfl, fun e => ?_⟩
    show e ∈ a.expected ++ b.expected.filter (· ∉ a.expected) ↔ _
    rw [List.mem_append, List.mem_filter, decide_eq_true_iff]
    tauto

/-- The property holds of the furthest of two obstacles that it holds of. -/
def Kept (P : Obstacle → Prop) : Prop := ∀ ⦃a b⦄, P a → P b → P (a.furthest b)

/-- The property holds of the obstacle if that lies further on than `k`. -/
def Beyond (k : Nat) (P : Obstacle → Prop) (o : Obstacle) : Prop := k < o.reach → P o

theorem Beyond.mono {l : Nat} (h : o.Beyond k P) (hkl : k ≤ l) : o.Beyond l P :=
  fun hl => h (Nat.lt_of_le_of_lt hkl hl)

theorem Kept.beyond (hP : Kept P) (k : Nat) : Kept (Beyond k P) := by
  intro a b ha hb hk
  rcases furthest_cases a b with ⟨-, h⟩ | ⟨-, h⟩ | ⟨hreach, -⟩
  · rw [h] at hk ⊢
    exact hb hk
  · rw [h] at hk ⊢
    exact ha hk
  · rw [reach_furthest] at hk
    exact hP (ha (by omega)) (hb (by omega))

end Obstacle

open Obstacle

namespace Outcome

/-- What the reader is stuck at, or has passed. -/
def obstacle? : Outcome α → Option Obstacle
  | accepted _ _ passed => passed
  | stuck o => some o

theorem obstacle?_after (r : Outcome α) (earlier : Option Obstacle) :
    (r.after earlier).obstacle? = following? r.obstacle? earlier := by
  cases r <;> rfl

theorem obstacle?_within (c : Construct) (r : Outcome α) :
    (r.within c).obstacle? = r.obstacle?.map (·.within c) := by
  cases r <;> rfl

end Outcome

namespace Reader

/-- The reader tells no other obstacles from here than those with the property. -/
def TellsOnly (p : Reader α) (P : Obstacle → Prop) (s : Place) : Prop :=
  ∀ o, (p s).obstacle? = some o → P o

variable {p q : Reader α} {P Q : Obstacle → Prop} {s t : Place} {a : α} {o : Obstacle}

theorem TellsOnly.mono (h : p.TellsOnly P s) (hPQ : ∀ o, P o → Q o) : p.TellsOnly Q s :=
  fun o ho => hPQ o (h o ho)

theorem TellsOnly.of_stuck (h : p.TellsOnly P s) (hp : p s = .stuck o) : P o :=
  h o (congrArg Outcome.obstacle? hp)

theorem TellsOnly.of_accepted {passed : Option Obstacle} (h : p.TellsOnly P s)
    (hp : p s = .accepted a t passed) : ∀ e ∈ passed, P e :=
  fun e he => h e ((congrArg Outcome.obstacle? hp).trans he)

theorem tellsOnly_pure (a : α) : (pure a : Reader α).TellsOnly P s := nofun

theorem Kept.of_following? {new old : Option Obstacle} (hP : Kept P) (hnew : ∀ e ∈ new, P e)
    (hold : ∀ e ∈ old, P e) : ∀ e ∈ following? new old, P e := by
  cases new with
  | none => exact hold
  | some n =>
    cases old with
    | none => exact hnew
    | some e =>
      rintro _ ⟨⟩
      exact hP (hnew n rfl) (hold e rfl)

theorem TellsOnly.bind {f : α → Reader β} (hP : Kept P) (hp : p.TellsOnly P s)
    (hf : ∀ a t, p.Accepts s a t → (f a).TellsOnly P t) : (p >>= f).TellsOnly P s := by
  intro o ho
  cases h : p s with
  | stuck o' =>
    rw [bind_of_stuck h] at ho
    obtain rfl := Option.some.inj ho
    exact hp.of_stuck h
  | accepted a t passed =>
    rw [bind_of_accepted h, Outcome.obstacle?_after] at ho
    exact Kept.of_following? hP (hf a t ⟨passed, h⟩) (hp.of_accepted h) o ho

theorem stuck_orElse (h : (p <|> q) s = .stuck o) :
    ∃ a b, p s = .stuck a ∧ q s = .stuck b ∧ o = b.furthest a := by
  have hdef : orElse p q s = .stuck o := h
  unfold orElse at hdef
  split at hdef
  next => cases hdef
  next a ha =>
    split at hdef
    next => cases hdef
    next b hb => exact ⟨a, b, ha, hb, (Outcome.stuck.inj hdef).symm⟩

theorem TellsOnly.orElse (hP : Kept P) (hp : p.TellsOnly P s) (hq : q.TellsOnly P s) :
    (p <|> q).TellsOnly P s := by
  intro o ho
  cases h : (p <|> q) s with
  | stuck o' =>
    obtain ⟨a, b, ha, hb, hab⟩ := stuck_orElse h
    rw [h] at ho
    obtain rfl := Option.some.inj ho
    exact hab ▸ hP (hq.of_stuck hb) (hp.of_stuck ha)
  | accepted a t passed =>
    have hdef : Reader.orElse p q s = .accepted a t passed := h
    rw [h] at ho
    unfold Reader.orElse at hdef
    split at hdef
    next hacc =>
      obtain ⟨rfl, rfl, rfl⟩ := Outcome.accepted.inj hdef
      exact hp.of_accepted hacc o ho
    next =>
      split at hdef
      next hacc =>
        obtain ⟨rfl, rfl, rfl⟩ := Outcome.accepted.inj hdef
        exact hq.of_accepted hacc o ho
      next => cases hdef

theorem TellsOnly.optional (hp : p.TellsOnly P s) : (optional p).TellsOnly P s := by
  intro o ho
  unfold Reader.optional at ho
  cases h : p s <;> rw [h] at ho <;> exact hp o (h ▸ ho)

theorem TellsOnly.within {c : Construct} (hp : p.TellsOnly P s)
    (hc : ∀ o, P o → Q (o.within c)) : (within c p).TellsOnly Q s := by
  intro o ho
  rw [Reader.within, Outcome.obstacle?_within] at ho
  obtain ⟨e, he, rfl⟩ := Option.map_eq_some_iff.1 ho
  exact hc e (hp e he)

theorem TellsOnly.spanned {p : Reader (Span → α)} (hp : p.TellsOnly P s) :
    (spanned p).TellsOnly P s := by
  intro o ho
  unfold Reader.spanned at ho
  cases h : p s <;> rw [h] at ho <;> exact hp o (h ▸ ho)

theorem tellsOnly_satisfying {test : Char → Bool} (h : P (s.obstacle [])) :
    (satisfying test).TellsOnly P s := by
  intro o ho
  unfold satisfying at ho
  split at ho
  · split at ho <;> cases ho
    exact h
  · cases ho
    exact h

theorem stuck_char {c : Char} (h : char c s = .stuck o) : o = s.obstacle [some c] := by
  unfold char at h
  split at h
  · split at h <;> cases h
    rfl
  · cases h
    rfl

theorem accepted_char {c : Char} {x : Unit} {passed : Option Obstacle}
    (h : char c s = .accepted x t passed) : passed = none := by
  unfold char at h
  split at h
  · split at h <;> cases h
    rfl
  · cases h

theorem tellsOnly_char {c : Char} (h : P (s.obstacle [some c])) : (char c).TellsOnly P s := by
  intro o ho
  cases hs : char c s with
  | stuck o' =>
    rw [hs] at ho
    obtain rfl := Option.some.inj ho
    exact stuck_char hs ▸ h
  | accepted x t passed =>
    rw [hs, Outcome.obstacle?, accepted_char hs] at ho
    cases ho

theorem tellsOnly_exactly {v : Text} (hP : Kept P) (h : ∀ c ∈ v, ∀ s : Place,
    P (s.obstacle [some c])) : (exactly v).TellsOnly P s := by
  induction v generalizing s with
  | nil => exact tellsOnly_pure ()
  | cons c v ih =>
    obtain ⟨hc, hv⟩ := List.forall_mem_cons.1 h
    exact .bind (p := char c) hP (tellsOnly_char (hc s)) fun _ _ _ => ih hv

theorem TellsOnly.upTo (hP : Kept P) (hp : ∀ s, p.TellsOnly P s) (n : Nat) :
    (p.upTo n).TellsOnly P s := by
  induction n generalizing s with
  | zero => exact tellsOnly_pure []
  | succ n ih =>
    cases h : p s with
    | stuck o =>
      intro o' ho'
      rw [upTo_succ_of_stuck h] at ho'
      obtain rfl := Option.some.inj ho'
      exact (hp s).of_stuck h
    | accepted a t passed =>
      intro o ho
      rw [upTo_succ_of_accepts ⟨passed, h⟩] at ho
      exact TellsOnly.bind hP (hp s) (fun a t _ => .bind hP ih fun as u _ => tellsOnly_pure _) o ho

theorem TellsOnly.many (hP : Kept P) (hp : ∀ s, p.TellsOnly P s) : p.many.TellsOnly P s :=
  .upTo hP hp _

theorem TellsOnly.many1 (hP : Kept P) (hp : ∀ s, p.TellsOnly P s) : p.many1.TellsOnly P s :=
  .bind hP (hp s) fun _ _ _ => .bind hP (.many hP hp) fun _ _ _ => tellsOnly_pure _

theorem not_refuses_optional : ¬ (optional p).Refuses s := by
  rintro ⟨o, ho⟩
  unfold optional at ho
  split at ho <;> cases ho

theorem not_refuses_bind {f : α → Reader β} (hp : ¬ p.Refuses s)
    (hf : ∀ a t, ¬ (f a).Refuses t) : ¬ (p >>= f).Refuses s := by
  rintro ⟨o, ho⟩
  cases h : p s with
  | stuck o' => exact hp ⟨o', h⟩
  | accepted a t passed =>
    rw [bind_of_accepted h] at ho
    cases hfa : f a t with
    | stuck o' => exact hf a t ⟨o', hfa⟩
    | accepted b u passed' =>
      rw [hfa] at ho
      cases ho

theorem not_refuses_pure (a : α) : ¬ (pure a : Reader α).Refuses s := by
  rintro ⟨o, ho⟩
  cases ho

theorem not_refuses_upTo (n : Nat) : ¬ (p.upTo n).Refuses s := by
  induction n generalizing s with
  | zero => exact not_refuses_pure []
  | succ n ih =>
    rintro ⟨o, ho⟩
    cases h : p s with
    | stuck o' =>
      rw [upTo_succ_of_stuck h] at ho
      cases ho
    | accepted a t passed =>
      rw [upTo_succ_of_accepted h] at ho
      have hrest : ¬ ((p.upTo n).andThen fun as => accept (a :: as)).Refuses t :=
        not_refuses_bind ih fun as u => not_refuses_pure _
      cases hr : ((p.upTo n).andThen fun as => accept (a :: as)) t with
      | stuck o' => exact hrest ⟨o', hr⟩
      | accepted b u passed' =>
        rw [hr] at ho
        cases ho

theorem not_refuses_many : ¬ p.many.Refuses s := not_refuses_upTo _

/-- Where only the first of two parts can be stuck it is what the whole is stuck at. -/
theorem stuck_of_bind {f : α → Reader β} (hf : ∀ a t, ¬ (f a).Refuses t)
    (h : (p >>= f) s = .stuck o) : p s = .stuck o := by
  cases hp : p s with
  | stuck o' =>
    rw [bind_of_stuck hp] at h
    exact congrArg Outcome.stuck (Outcome.stuck.inj h)
  | accepted a t passed =>
    exact absurd ⟨o, h⟩ (not_refuses_bind (fun hr => Accepts.not_refuses ⟨passed, hp⟩ hr) hf)

end Reader

end PatternAnatomy
