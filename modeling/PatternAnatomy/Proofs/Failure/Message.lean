import PatternAnatomy.Proofs.Grammar.Blockage
import PatternAnatomy.Proofs.Grammar.Quantifier
import PatternAnatomy.Proofs.Node.Source

namespace PatternAnatomy

open Grammar

/-- How a message ends that names the construct being read. -/
def Construct.whileParsing : Option Construct → Text
  | some c => " while parsing ".toList ++ c.name
  | none => []

theorem Obstacle.message_eq (o : Obstacle) :
    o.message = o.headline ++ Construct.whileParsing o.context.construct? := by
  unfold message Construct.whileParsing
  cases o.context.construct? with
  | some c => exact List.append_assoc ..
  | none => exact (List.append_nil _).symm

/-- At the offset `k` the digits `ds` stand, as many as there are. -/
def Text.RunOfDigitsAt (p : Text) (k : Nat) (ds : Text) : Prop :=
  ds ≠ [] ∧ (∀ d ∈ ds, d.isDigit = true) ∧
    ∃ r, p.drop k = ds ++ r ∧ ∀ c, r.head? = some c → c.isDigit = false

variable {p : Text} {f : Failure}

theorem Text.runOfDigitsAt_of_accepts {ds : Text} {s t : Place} (hs : (Place.start p).Before s)
    (h : digits.Accepts s ds t) : p.RunOfDigitsAt s.offset ds := by
  obtain ⟨hne, hr, hdigits, hend⟩ := accepts_digits.1 h
  exact ⟨hne, hdigits, t.rest, hs.rest_eq_drop.symm.trans hr.rest, hend⟩

/-- A failure names what stands at its position: a character, the end of the pattern, or all digits
of a repetition count that is 2^32 or more. -/
theorem parse_error_message (h : parse p = .error f) : ∃ label : Option Construct,
    (∃ c, p[f.position]? = some c ∧ f.message = "unexpected ".toList ++ Text.quotedChar c ++
        Construct.whileParsing label) ∨
      (f.position = p.length ∧ f.message = "unexpected end of input".toList ++
        Construct.whileParsing label) ∨
      ∃ ds, p.RunOfDigitsAt f.position ds ∧ 4294967296 ≤ ds.decimal ∧
        f.message = "invalid repetition count ".toList ++ ds ++
          ": number too large to fit in target type".toList ++ Construct.whileParsing label := by
  obtain ⟨o, ho, rfl⟩ := parse_eq_error_iff.1 h
  -- What the message is about and where it is told are of one stop.
  have hblocked : Blocked .ready (.start p) o.stop :=
    blocked_of_whole (by rw [Reader.Stops, ho]; rfl)
  have hmessage : o.failure.message = o.headline ++ Construct.whileParsing o.context.construct? :=
    o.message_eq
  refine ⟨o.context.construct?, ?_⟩
  rw [hmessage, Obstacle.headline]
  generalize hx : o.stop = x at hblocked
  cases hblocked with
  | @character v z u hv hz =>
    obtain ⟨-, hposition, hcause, hfound⟩ := Stop.mk.inj hx
    have hat : p[u.offset]? = u.rest.head? := hv.before.getElem?
    have hfailure : o.failure.position = u.offset := hposition
    rw [hcause, hfound, hfailure, hat]
    cases hu : u.rest with
    | cons c r => exact .inl ⟨c, rfl, rfl⟩
    | nil =>
      refine .inr (.inl ⟨?_, rfl⟩)
      have hlength := hv.length
      have hoffset := hv.offset
      simp only [hu, Place.start, List.length_nil] at hlength hoffset
      omega
  | @count v es ds u b c hv _ hb _ hds hlarge =>
    obtain ⟨-, hposition, hcause, -⟩ := Stop.mk.inj hx
    have hfailure : o.failure.position = b.offset := hposition
    rw [hcause, hfailure]
    rw [digitsValue_eq_decimal] at hlarge
    have hrun := Text.runOfDigitsAt_of_accepts (hv.before.trans hb.before) hds
    exact .inr (.inr ⟨ds, hrun, hlarge, rfl⟩)

theorem parse_error_message_overlong_maximum : ∃ f, parse "a{,4294967296}".toList = .error f ∧
    f.position = 3 ∧ ∃ label ds, Text.RunOfDigitsAt "a{,4294967296}".toList 3 ds ∧
      4294967296 ≤ ds.decimal ∧ f.message = "invalid repetition count ".toList ++ ds ++
        ": number too large to fit in target type".toList ++ Construct.whileParsing label := by
  have h : parse "a{,4294967296}".toList = .error ⟨"invalid repetition count 4294967296".toList ++
      ": number too large to fit in target type while parsing quantifier".toList, 3,
      ["quantifier".toList]⟩ := by
    decide +kernel
  obtain ⟨label, ⟨c, -, hmessage⟩ | ⟨hlength, -⟩ | ⟨ds, hds⟩⟩ := parse_error_message h
  · simp at hmessage
  · exact absurd hlength (by decide)
  · exact ⟨_, h, rfl, label, ds, hds⟩

end PatternAnatomy
