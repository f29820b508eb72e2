import PatternAnatomy.Proofs.Reading.Acceptance

namespace PatternAnatomy

def Place.renamed (f : Char → Char) (s : Place) : Place := ⟨s.offset, s.rest.map f⟩

/-- The obstacle as it is met in the text with its characters renamed. What was expected there is
not of the text. -/
def Obstacle.renamed (f : Char → Char) (o : Obstacle) : Obstacle :=
  { o with found := o.found.map f }

/-- The outcome in the text with its characters renamed, the value changed by `g`. -/
def Outcome.renamed (f : Char → Char) (g : α → β) : Outcome α → Outcome β
  | accepted a t passed => accepted (g a) (t.renamed f) (passed.map (·.renamed f))
  | stuck o => stuck (o.renamed f)

section

variable {f : Char → Char}

theorem Place.length_renamed (s : Place) : (s.renamed f).rest.length = s.rest.length :=
  List.length_map _

namespace Obstacle

theorem furthest_renamed (a b : Obstacle) :
    (a.renamed f).furthest (b.renamed f) = (a.furthest b).renamed f := by
  have ha : (a.renamed f).reach = a.reach := rfl
  have hb : (b.renamed f).reach = b.reach := rfl
  -- What was found decides nothing, so that the same one is the furthest.
  simp only [furthest, ha, hb]
  split
  · rfl
  · split <;> rfl

theorem following_renamed (new : Obstacle) (old : Option Obstacle) :
    (new.renamed f).following (old.map (·.renamed f)) = (new.following old).renamed f := by
  cases old with
  | none => rfl
  | some o => exact furthest_renamed new o

theorem following?_renamed (new old : Option Obstacle) :
    following? (new.map (·.renamed f)) (old.map (·.renamed f)) =
      (following? new old).map (·.renamed f) := by
  cases new with
  | none => rfl
  | some o => exact congrArg some (following_renamed o old)

end Obstacle

namespace Outcome

variable {g : α → β}

theorem after_renamed (r : Outcome α) (earlier : Option Obstacle) :
    (r.renamed f g).after (earlier.map (·.renamed f)) = (r.after earlier).renamed f g := by
  cases r with
  | accepted a t passed =>
    simp only [renamed, after, Obstacle.following?_renamed]
  | stuck o => simp only [renamed, after, Obstacle.following_renamed]

theorem within_renamed (c : Construct) (r : Outcome α) :
    (r.renamed f g).within c = (r.within c).renamed f g := by
  rcases r with ⟨a, t, _ | o⟩ | o <;> rfl

end Outcome

namespace Reader

/-- With its characters renamed, `q` reads in a text what `p` reads in the text as it is, the values
changed by `g`. -/
def Mirrors (f : Char → Char) (g : α → β) (p : Reader α) (q : Reader β) : Prop :=
  ∀ s, q (s.renamed f) = (p s).renamed f g

variable {g : α → β} {p p' : Reader α} {q q' : Reader β} {s t : Place}

theorem Mirrors.of_accepted (h : Mirrors f g p q) {a : α} {passed : Option Obstacle}
    (hp : p s = .accepted a t passed) :
    q (s.renamed f) = .accepted (g a) (t.renamed f) (passed.map (·.renamed f)) := by
  rw [h s, hp, Outcome.renamed]

theorem Mirrors.of_stuck (h : Mirrors f g p q) {o : Obstacle} (hp : p s = .stuck o) :
    q (s.renamed f) = .stuck (o.renamed f) := by
  rw [h s, hp, Outcome.renamed]

theorem mirrors_pure {a : α} {b : β} (h : g a = b) : Mirrors f g (pure a) (pure b) := by
  intro s
  rw [← h]
  rfl

theorem Mirrors.bind {h : α' → β'} {k : α → Reader α'} {l : β → Reader β'} (hp : Mirrors f g p q)
    (hk : ∀ a, Mirrors f h (k a) (l (g a))) : Mirrors f h (p >>= k) (q >>= l) := by
  intro s
  cases hs : p s with
  | accepted a t passed =>
    rw [bind_of_accepted hs, bind_of_accepted (hp.of_accepted hs), hk a t, Outcome.after_renamed]
  | stuck o =>
    rw [bind_of_stuck hs, bind_of_stuck (hp.of_stuck hs)]
    rfl

theorem Mirrors.orElse (hp : Mirrors f g p q) (hp' : Mirrors f g p' q') :
    Mirrors f g (p <|> p') (q <|> q') := by
  intro s
  show Reader.orElse q q' (s.renamed f) = (Reader.orElse p p' s).renamed f g
  rw [Reader.orElse, Reader.orElse]
  cases hs : p s with
  | accepted a t passed =>
    rw [hp.of_accepted hs]
    rfl
  | stuck o =>
    rw [hp.of_stuck hs]
    cases hs' : p' s with
    | accepted a t passed =>
      rw [hp'.of_accepted hs']
      rfl
    | stuck o' =>
      rw [hp'.of_stuck hs']
      exact congrArg Outcome.stuck (Obstacle.following_renamed o' (some o))

theorem Mirrors.optional (hp : Mirrors f g p q) :
    Mirrors f (Option.map g) (optional p) (optional q) := by
  intro s
  rw [Reader.optional, Reader.optional]
  cases hs : p s with
  | accepted a t passed =>
    rw [hp.of_accepted hs]
    rfl
  | stuck o =>
    rw [hp.of_stuck hs]
    rfl

theorem Mirrors.within {c : Construct} (hp : Mirrors f g p q) :
    Mirrors f g (within c p) (within c q) := by
  intro s
  rw [Reader.within, hp s, Outcome.within_renamed]
  rfl

theorem Mirrors.spanned {p : Reader (Span → α)} {q : Reader (Span → β)}
    (hp : Mirrors f (g ∘ ·) p q) : Mirrors f g (spanned p) (spanned q) := by
  intro s
  rw [Reader.spanned, Reader.spanned]
  cases hs : p s with
  | accepted a t passed =>
    rw [hp.of_accepted hs]
    rfl
  | stuck o =>
    rw [hp.of_stuck hs]
    rfl

theorem mirrors_satisfying {test : Char → Bool} (h : ∀ c, test (f c) = test c) :
    Mirrors f f (satisfying test) (satisfying test) := by
  intro ⟨n, r⟩
  cases r with
  | nil => rfl
  | cons c r =>
    simp only [satisfying, Place.renamed, List.map_cons, h]
    split <;> rfl

theorem mirrors_anyChar : Mirrors f f anyChar anyChar := mirrors_satisfying fun _ => rfl

theorem mirrors_char {c : Char} (h : ∀ d, f d = c ↔ d = c) : Mirrors f id (char c) (char c) := by
  intro ⟨n, r⟩
  cases r with
  | nil => rfl
  | cons d r =>
    simp only [char, Place.renamed, List.map_cons, h]
    split <;> rfl

theorem mirrors_exactly {v : Text} (h : ∀ c ∈ v, ∀ d, f d = c ↔ d = c) :
    Mirrors f id (exactly v) (exactly v) := by
  induction v with
  | nil => exact mirrors_pure rfl
  | cons c v ih =>
    obtain ⟨hc, hv⟩ := List.forall_mem_cons.1 h
    exact (mirrors_char hc).bind fun _ => ih hv

theorem mirrors_endOfText : Mirrors f id endOfText endOfText := by
  intro ⟨n, r⟩
  cases r <;> rfl

theorem Mirrors.complete (hp : Mirrors f g p q) : Mirrors f g (complete p) (complete q) :=
  hp.bind fun _ => mirrors_endOfText.bind fun _ => mirrors_pure rfl

theorem Mirrors.upTo (hp : Mirrors f g p q) (n : Nat) :
    Mirrors f (List.map g) (p.upTo n) (q.upTo n) := by
  induction n with
  | zero => exact mirrors_pure rfl
  | succ n ih =>
    intro s
    cases hs : p s with
    | accepted a t passed =>
      have hmore : Mirrors f (List.map g) ((p.upTo n).andThen fun as => accept (a :: as))
          ((q.upTo n).andThen fun bs => accept (g a :: bs)) :=
        ih.bind fun _ => mirrors_pure rfl
      rw [upTo_succ_of_accepted hs, upTo_succ_of_accepted (hp.of_accepted hs), hmore t,
        Outcome.after_renamed]
    | stuck o =>
      rw [upTo_succ_of_stuck hs, upTo_succ_of_stuck (hp.of_stuck hs)]
      rfl

theorem Mirrors.many (hp : Mirrors f g p q) : Mirrors f (List.map g) p.many q.many := by
  intro s
  -- The number of rounds comes from the length of what is left, which is the same.
  rw [Reader.many, Reader.many, Place.length_renamed]
  exact hp.upTo _ s

theorem Mirrors.many1 (hp : Mirrors f g p q) : Mirrors f (List.map g) p.many1 q.many1 :=
  hp.bind fun _ => hp.many.bind fun _ => mirrors_pure rfl

theorem Mirrors.separatedBy {separator : Reader Unit} (hp : Mirrors f g p q)
    (hs : Mirrors f id separator separator) :
    Mirrors f (List.map g) (p.separatedBy separator) (q.separatedBy separator) := by
  have hmore : Mirrors f g (separator.andThen fun _ => p) (separator.andThen fun _ => q) :=
    hs.bind fun _ => hp
  exact hp.bind fun _ => hmore.many.bind fun _ => mirrors_pure rfl

end Reader

end

end PatternAnatomy
