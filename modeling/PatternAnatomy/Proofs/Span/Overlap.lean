import PatternAnatomy.Span

namespace PatternAnatomy.Span

/-- Some character belongs to both. -/
def Meets (s t : Span) : Prop := ∃ i, s.contains i = true ∧ t.contains i = true

/-- The first span is empty and stands between two characters of the second. -/
def Parts (s t : Span) : Prop :=
  s.length = 0 ∧ ∃ i, s.offset = i + 1 ∧ t.contains i = true ∧ t.contains (i + 1) = true

variable {s t : Span} {i : Nat}

theorem overlaps_comm (s t : Span) : s.overlaps t = true ↔ t.overlaps s = true := by
  rw [overlaps_iff, overlaps_iff, and_comm]

theorem meets_comm (s t : Span) : s.Meets t ↔ t.Meets s :=
  exists_congr fun _ => and_comm

theorem offset_lt_stop (h : 0 < s.length) : s.offset < s.stop := Nat.lt_add_of_pos_right h

/-- If the two share any character, they share the first one of the later span. -/
theorem meets_iff_of_le (h : s.offset ≤ t.offset) (ht : 0 < t.length) :
    s.Meets t ↔ t.offset < s.stop := by
  constructor
  · rintro ⟨i, hs, ht⟩
    exact Nat.lt_of_le_of_lt (contains_iff.1 ht).1 (contains_iff.1 hs).2
  · intro hstop
    exact ⟨t.offset, contains_iff.2 ⟨h, hstop⟩, contains_iff.2 ⟨Nat.le_refl _, offset_lt_stop ht⟩⟩

theorem overlaps_iff_of_le (h : s.offset ≤ t.offset) (ht : 0 < t.length) :
    s.overlaps t = true ↔ t.offset < s.stop := by
  rw [overlaps_iff]
  exact and_iff_right (Nat.lt_of_le_of_lt h (offset_lt_stop ht))

theorem overlaps_iff_meets (hs : 0 < s.length) (ht : 0 < t.length) :
    s.overlaps t = true ↔ s.Meets t := by
  rcases Nat.le_total s.offset t.offset with h | h
  · rw [overlaps_iff_of_le h ht, meets_iff_of_le h ht]
  · rw [overlaps_comm, overlaps_iff_of_le h hs, meets_comm, meets_iff_of_le h hs]

theorem not_contains_of_length_eq_zero (h : s.length = 0) : ¬ s.contains i = true := by
  rw [contains_iff, stop]
  omega

theorem not_meets_of_length_eq_zero (h : s.length = 0) : ¬ s.Meets t :=
  fun ⟨_, hs, _⟩ => not_contains_of_length_eq_zero h hs

theorem Parts.not_meets (h : s.Parts t) : ¬ s.Meets t := not_meets_of_length_eq_zero h.1

theorem Parts.length_pos (h : s.Parts t) : 0 < t.length := by
  obtain ⟨-, i, -, ht, -⟩ := h
  exact Nat.pos_of_ne_zero fun hzero => not_contains_of_length_eq_zero hzero ht

theorem overlaps_iff_parts (h : s.length = 0) : s.overlaps t = true ↔ s.Parts t := by
  have hstop : s.stop = s.offset := by rw [stop, h, Nat.add_zero]
  rw [overlaps_iff, hstop]
  constructor
  · rintro ⟨hend, hstart⟩
    have hbefore : t.contains (s.offset - 1) = true := contains_iff.2 (by omega)
    have hbehind : t.contains (s.offset - 1 + 1) = true := contains_iff.2 (by omega)
    exact ⟨h, s.offset - 1, by omega, hbefore, hbehind⟩
  · rintro ⟨-, i, hi, hbefore, hbehind⟩
    rw [contains_iff] at hbefore hbehind
    omega

theorem overlaps_iff_meets_or_parts (s t : Span) :
    s.overlaps t = true ↔ s.Meets t ∨ s.Parts t ∨ t.Parts s := by
  -- An empty span meets nothing and is parted by nothing; two that are not empty part nothing.
  rcases Nat.eq_zero_or_pos s.length with hs | hs
  · have hno : ¬ t.Parts s := fun h => Nat.ne_of_gt h.length_pos hs
    rw [overlaps_iff_parts hs, or_iff_right (not_meets_of_length_eq_zero hs), or_iff_left hno]
  rcases Nat.eq_zero_or_pos t.length with ht | ht
  · have hno : ¬ s.Parts t := fun h => Nat.ne_of_gt hs h.1
    rw [overlaps_comm, overlaps_iff_parts ht, meets_comm,
      or_iff_right (not_meets_of_length_eq_zero ht), or_iff_right hno]
  · have hno : ¬ (s.Parts t ∨ t.Parts s) := by
      rintro (h | h)
      · exact Nat.ne_of_gt hs h.1
      · exact Nat.ne_of_gt ht h.1
    rw [overlaps_iff_meets hs ht, or_iff_left hno]

/-- Two spans overlap if they share a character, and if one is empty and stands inside the other. So
to overlap is to share a character, unless one is empty and stands inside the other. -/
theorem overlaps_iff_meets_unless_parts (s t : Span) :
    (s.overlaps t = true ↔ s.Meets t ∨ s.Parts t ∨ t.Parts s) ∧
    ((s.overlaps t = true ↔ s.Meets t) ↔ ¬ s.Parts t ∧ ¬ t.Parts s) := by
  refine ⟨overlaps_iff_meets_or_parts s t, ?_⟩
  rw [overlaps_iff_meets_or_parts]
  constructor
  · intro hagree
    constructor
    · exact fun h => h.not_meets (hagree.1 (.inr (.inl h)))
    · exact fun h => h.not_meets ((meets_comm s t).1 (hagree.1 (.inr (.inr h))))
  · rintro ⟨hs, ht⟩
    exact or_iff_left (not_or.2 ⟨hs, ht⟩)

/-- At the end of another span an empty one does not overlap it. -/
example : (⟨2, 0⟩ : Span).overlaps ⟨0, 2⟩ = false := by decide

/-- An empty span overlaps a span around it, with no character in common. -/
theorem not_forall_overlaps_iff_meets : ¬ ∀ s t : Span,
    s.overlaps t = true ↔ ∃ i, s.contains i = true ∧ t.contains i = true := by
  intro h
  obtain ⟨i, hempty, -⟩ := (h ⟨1, 0⟩ ⟨0, 2⟩).1 rfl
  exact not_contains_of_length_eq_zero rfl hempty

end PatternAnatomy.Span
