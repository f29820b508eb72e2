import PatternAnatomy.Proofs.Grammar.DeadEnd
import PatternAnatomy.Proofs.Reading.Stops

namespace PatternAnatomy.Grammar

open Reader Node

variable {m m' m'' : Stage} {s t u : Place} {v : Text} {Z : Text → Prop} {x : Report} {α β : Type}

/-- From `s` on the reader has come past the beginning of a pattern, and the texts `Z` can stand
behind it, at `u`. -/
inductive Stands (m : Stage) (s u : Place) (Z : Text → Prop) : Prop where
  | admits {v : Text} (hv : s.Reads v u) (h : Admits m v Z)
  /-- At the end of the text there is a dash behind a character list. Any character behind the dash
  makes a range of the two and the bracket in front of them, and the list goes on. -/
  | runsOn (hend : u.rest = []) (h : ∀ c, ∃ v z, s.Reads v u ∧ Admits m v (· = c :: z))

/-- No pattern begins with what the reader has come past from `s` to `u`. -/
def Dead (m : Stage) (s u : Place) : Prop := ∃ v, s.Reads v u ∧ DeadEnd m v

/-- What stands behind the place `t`, at the stage that the reader is at there, stands so behind the
place `s`. -/
structure Carries (m : Stage) (s : Place) (m' : Stage) (t : Place) : Prop where
  stands : ∀ ⦃u Z⦄, Stands m' t u Z → Stands m s u Z
  dead : ∀ ⦃u⦄, Dead m' t u → Dead m s u

namespace Stands

theorem refl (h : Admits m [] Z) : Stands m s s Z := .admits (.refl s) h

theorem here (m : Stage) (s : Place) : Stands m s s (· = ['.']) := .refl (admits_nil m)

theorem behind (hv : s.Reads v t)
    (hstep : ∀ ⦃w Z⦄, Admits m' w Z → Admits m (v ++ w) Z) (h : Stands m' t u Z) :
    Stands m s u Z := by
  cases h with
  | admits hr h => exact .admits (hv.trans hr) (hstep h)
  | runsOn hend h =>
    refine .runsOn hend fun c => ?_
    obtain ⟨w, z, hr, h⟩ := h c
    exact ⟨_, z, hv.trans hr, hstep h⟩

theorem exists_admits {c : Char} {z : Text} (h : Stands m s u (· = c :: z)) :
    ∃ v z', s.Reads v u ∧ Admits m v (· = c :: z') := by
  cases h with
  | admits hv h => exact ⟨_, z, hv, h⟩
  | runsOn _ h => exact h c

theorem closing {nonCapturing : Bool} {name : Option Text} (hname : ∀ w ∈ name, IsName w)
    (hv : s.Reads ('(' :: groupHeader nonCapturing name) t) (h : Stands .ready t u (· = [])) :
    ∃ z, Stands m s u (· = ')' :: z) := by
  cases h with
  | admits hw h => exact ⟨[], .admits (hv.trans hw) (h.closing hname)⟩
  | runsOn _ h =>
    obtain ⟨w, z, hw, h⟩ := h ')'
    exact ⟨z, .admits (hv.trans hw) (h.in_group hname)⟩

end Stands

theorem Dead.behind (hv : s.Reads v t)
    (hstep : ∀ w, t.Reads w u → DeadEnd m' w → DeadEnd m (v ++ w)) (h : Dead m' t u) :
    Dead m s u := by
  obtain ⟨w, hw, h⟩ := h
  exact ⟨_, hv.trans hw, hstep w hw h⟩

namespace Carries

theorem refl (m : Stage) (s : Place) : Carries m s m s := ⟨fun _ _ => id, fun _ => id⟩

theorem trans (h : Carries m s m' t) (h' : Carries m' t m'' u) : Carries m s m'' u where
  stands _ _ hs := h.stands (h'.stands hs)
  dead _ hd := h.dead (h'.dead hd)

theorem filled_of_ready (s : Place) : Carries .filled s .ready s where
  stands _ _ h := h.behind (.refl s) fun _ _ h => h.filled_of_ready
  dead _ h := h.behind (.refl s) fun _ _ h => h.filled

theorem behind (hv : s.Reads v t) (hne : v ≠ [])
    (hstep : ∀ y w, Completes m' y w → Completes m (v ++ y) w)
    (hdead : ∀ w u, t.Reads w u → DeadEnd m' w → DeadEnd m (v ++ w)) : Carries m s m' t where
  stands _ _ h := h.behind hv fun _ _ h => h.behind hne hstep
  dead u h := h.behind hv fun w => hdead w u

theorem in_group {nonCapturing : Bool} {name : Option Text} (hname : ∀ w ∈ name, IsName w)
    (hv : s.Reads ('(' :: groupHeader nonCapturing name) t) : Carries m s .ready t where
  stands _ _ h := h.behind hv fun _ _ h => h.in_group hname
  dead _ h := h.behind hv fun _ _ h => h.in_group hname

end Carries

/-- What a reader at stage `m` may tell from `s` on. -/
inductive Known (m : Stage) (s : Place) : Report → Prop where
  /-- The characters up to the stop begin a pattern. -/
  | stop {z : Text} {u : Place} (h : Stands m s u (· = z)) : Known m s (.stop u.stop)
  /-- Any repetition could stand where the one with the large count does, and nothing could stand
  behind that count. -/
  | count {es ds : Text} {u b c : Place}
      (hrep : Stands m s u fun z => ∃ r, Repetition.Written r z) (hb : u.Reads ('{' :: es) b)
      (hes : es = [] ∨ ∃ cs, Repetition.IsCount cs ∧ es = cs ++ [','])
      (hds : digits.Accepts b ds c) (hlarge : Nat.pow 2 32 ≤ digitsValue ds)
      (hdead : Dead m s c) :
    Known m s (.stop ⟨c.offset, b.offset, .countTooLarge ds, none⟩)
  /-- What is expected can stand there. -/
  | awaits {c : Char} {z : Text} {u : Place} (h : Stands m s u (· = c :: z)) :
    Known m s (.awaits u.offset (some c))
  | within {c : Construct} (hc : c ≠ .alternation) : Known m s (.within c)

namespace Known

theorem of_misses {c : Char} {z : Text} (h : Stands m s u (· = c :: z))
    (hx : u.Misses (some c) x) : Known m s x := by
  rcases hx with rfl | rfl
  · exact .stop h
  · exact .awaits h

theorem exists_stands {k : Nat} {e : Option Char} (h : Known m s (.awaits k e)) :
    ∃ c z u, e = some c ∧ u.offset = k ∧ Stands m s u (· = c :: z) := by
  cases h with
  | awaits h => exact ⟨_, _, _, rfl, rfl, h⟩

theorem carried (hs : Carries m s m' t) (h : Known m' t x) : Known m s x := by
  cases h with
  | stop h => exact .stop (hs.stands h)
  | count hrep hb hes hds hlarge hdead =>
    exact .count (hs.stands hrep) hb hes hds hlarge (hs.dead hdead)
  | awaits h => exact .awaits (hs.stands h)
  | within hc => exact .within hc

theorem of_within {c : Construct} {p : Reader α} (hc : c ≠ .alternation)
    (h : (Reader.within c p).Tells s x) (hin : p.Tells s x → Known m s x) : Known m s x := by
  rcases tells_within h with h | rfl
  · exact hin h
  · exact .within hc

end Known

/-- The reader takes stage `m` to stage `m'` and tells nothing that is not known there. -/
structure Leads (m : Stage) (p : Reader α) (m' : Stage) : Prop where
  tells : ∀ ⦃s x⦄, p.Tells s x → Known m s x
  carries : ∀ ⦃s a t⦄, p.Accepts s a t → Carries m s m' t

namespace Leads

variable {p q : Reader α}

theorem pure (m : Stage) (a : α) : Leads m (pure a : Reader α) m where
  tells _ _ h := absurd h (not_tells_pure a)
  carries s _ _ h := (accepts_pure.1 h).2 ▸ .refl m s

theorem bind {f : α → Reader β} (hp : Leads m p m') (hf : ∀ a, Leads m' (f a) m'') :
    Leads m (p >>= f) m'' where
  tells s x h := by
    rcases tells_bind h with h | ⟨a, t, ha, h⟩
    · exact hp.tells h
    · exact ((hf a).tells h).carried (hp.carries ha)
  carries s b u h := by
    obtain ⟨a, t, ha, hb⟩ := accepts_bind.1 h
    exact (hp.carries ha).trans ((hf a).carries hb)

theorem orElse (hp : Leads m p m') (hq : Leads m q m') : Leads m (p <|> q) m' where
  tells s x h := (tells_orElse h).elim (hp.tells ·) (hq.tells ·)
  carries s a t h := by
    rcases accepts_orElse.1 h with h | ⟨-, h⟩
    · exact hp.carries h
    · exact hq.carries h

theorem optional (hp : Leads m p m') (hskip : ∀ s, Carries m s m' s) :
    Leads m (optional p) m' where
  tells s x h := hp.tells (tells_optional h)
  carries s o t h := by
    rcases accepts_optional.1 h with ⟨a, -, h⟩ | ⟨-, rfl, -⟩
    · exact hp.carries h
    · exact hskip _

theorem of_chain {as : List α} (hp : Leads m p m) (h : p.Chain s as t) : Carries m s m t := by
  induction h with
  | nil => exact .refl m _
  | cons h _ ih => exact (hp.carries h).trans ih

theorem many (hp : Leads m p m) : Leads m p.many m where
  tells s x h := by
    obtain ⟨as, t, hs, hx⟩ := tells_many h
    exact (hp.tells hx).carried (hp.of_chain hs)
  carries s as t h := hp.of_chain (chain_of_accepts_upTo h)

theorem within {c : Construct} (hc : c ≠ .alternation) (hp : Leads m p m') :
    Leads m (within c p) m' where
  tells _ _ h := .of_within hc h (hp.tells ·)
  carries _ _ _ h := hp.carries (accepts_within.1 h)

theorem spanned {p : Reader (Span → α)} (hp : Leads m p m') : Leads m (spanned p) m' where
  tells _ _ h := hp.tells (tells_spanned h)
  carries _ _ _ h := by
    obtain ⟨f, hf, -⟩ := accepts_spanned.1 h
    exact hp.carries hf

theorem char {c : Char} (hc : c ≠ '-')
    (hstep : ∀ y w, Completes m' y w → Completes m (c :: y) w)
    (hdead : ∀ v, DeadEnd m' v → DeadEnd m (c :: v)) : Leads m (char c) m' where
  tells s x h := by
    have hbegins : Admits m [] (· = [c, '.']) := by
      apply admits_of_completes (by simpa using hc)
      intro w hw
      exact hstep _ _ (.character (.inl rfl) (.stop (by simp) hw))
    exact .of_misses (.refl hbegins) (tells_char h)
  carries _ _ _ h := .behind (accepts_char.1 h) (by simp) hstep fun v _ _ => hdead v

end Leads

end PatternAnatomy.Grammar
