import PatternAnatomy.Proofs.Node.Subnodes

namespace PatternAnatomy

namespace Span

/-- The spans stand one behind the other from `start` to `stop`, neighbours `gap` characters
apart. -/
def Tiled (gap : Nat) : List Span → Nat → Nat → Prop
  | [], start, stop => start = stop
  | [s], start, stop => s.offset = start ∧ s.stop = stop
  | s :: t :: ss, start, stop => s.offset = start ∧ Tiled gap (t :: ss) (s.stop + gap) stop

theorem tiled_cons_iff {s : Span} {ss : List Span} {start stop : Nat} :
    Tiled 0 (s :: ss) start stop ↔ s.offset = start ∧ Tiled 0 ss s.stop stop := by
  cases ss <;> simp [Tiled]

end Span

namespace Item

def width : Item → Nat
  | single .. => 1
  | range .. => 3

theorem Spelled.length_span {i : Item} {s t : Place} (h : i.Spelled s t) :
    i.span.length = i.width := by
  rw [h.span_eq]
  cases h with
  | range h | single h => rw [h.length_span]; rfl

theorem SpelledAll.tiled {is : List Item} {s t : Place} (h : SpelledAll is s t) :
    Span.Tiled 0 (is.map span) s.offset t.offset ∧ ∀ i ∈ is, i.span.length = i.width := by
  induction h with
  | nil => exact ⟨rfl, by simp⟩
  | cons h _ ih =>
    obtain ⟨v, -, hv⟩ := h.reads
    rw [List.map_cons, Span.tiled_cons_iff, h.span_eq, hv.stop_span]
    exact ⟨⟨rfl, ih.1⟩, by simpa using ⟨h.length_span, ih.2⟩⟩

end Item

namespace Node

open Grammar

theorem Spelled.isEmpty_span {n : Node} {s t : Place} (h : n.Spelled s t) :
    n.span.isEmpty = false := by
  obtain ⟨v, hne, hv⟩ := h.reads
  rw [h.span_eq, hv.length_span]
  simpa [Span.isEmpty] using hne

theorem SpelledAll.tiled {ns : List Node} {s t : Place} (h : SpelledAll ns s t) :
    Span.Tiled 0 (ns.map span) s.offset t.offset := by
  apply h.consInduction (motive := fun ns s t => Span.Tiled 0 (ns.map span) s.offset t.offset)
  · intro s
    rfl
  · intro n ns s t u hn hrest
    rw [List.map_cons, Span.tiled_cons_iff, hn.stop_span]
    exact ⟨hn.offset_span, hrest⟩

theorem SpelledBarred.tiled {bs : List Node} {s t : Place} (h : SpelledBarred bs s t) :
    Span.Tiled 1 (bs.map span) s.offset t.offset := by
  apply h.consInduction (motive := fun bs s t => Span.Tiled 1 (bs.map span) s.offset t.offset)
  · intro n s t hn
    exact ⟨hn.offset_span, hn.stop_span⟩
  · intro n b bs s t u v hn hbar _ hrest
    rw [hbar.offset, ← hn.stop_span] at hrest
    exact ⟨hn.offset_span, hrest⟩

/-- How many characters stand between the bracket that opens a group and its first child. -/
def headerLength (nonCapturing : Bool) (name : Option Text) : Nat :=
  (if nonCapturing then 2 else 0) + match name with
    | some w => w.length + 3
    | none => 0

theorem length_groupHeader (nonCapturing : Bool) (name : Option Text) :
    (groupHeader nonCapturing name).length = headerLength nonCapturing name := by
  cases nonCapturing <;> cases name <;> simp [groupHeader, nameHeader, headerLength]
  omega

/-- What a node has inside it tiles the node, less its own signs. -/
def InsideTiled : Node → Prop
  | charList is negated s =>
    Span.Tiled 0 (is.map Item.span) (s.offset + 1 + if negated then 1 else 0) (s.stop - 1) ∧
      ∀ i ∈ is, i.span.length = i.width
  | group cs nonCapturing name s =>
    Span.Tiled 0 (cs.map span) (s.offset + 1 + headerLength nonCapturing name) (s.stop - 1)
  | alternation bs s => Span.Tiled 1 (bs.map span) s.offset s.stop
  | _ => True

theorem Spelled.insideTiled {n : Node} {s t : Place} (h : n.Spelled s t) : n.InsideTiled := by
  cases h with
  | verbatim | anyChar | escape | quantifier => trivial
  | charList ha _ _ his _ hb =>
    have hopen := ha.offset
    have hclose := (ha.before.trans his.before).stop_span hb
    have htiled := his.tiled
    rw [length_opening, ← Nat.add_assoc] at hopen
    simp only [InsideTiled, hclose, Nat.add_sub_cancel]
    exact hopen ▸ htiled
  | group ha _ hcs hb =>
    have hopen := ha.offset
    have hclose := (ha.before.trans hcs.before).stop_span hb
    have htiled := hcs.tiled
    rw [List.length_cons, length_groupHeader, Nat.add_comm _ 1, ← Nat.add_assoc] at hopen
    simp only [InsideTiled, hclose, Nat.add_sub_cancel]
    exact hopen ▸ htiled
  | alternation _ hbs =>
    have htiled := hbs.tiled
    have hle := hbs.before.offset_le
    simp only [InsideTiled, Span.stop_between hle]
    exact htiled

theorem SpelledAll.eq_nil {ns : List Node} {s t : Place} (h : SpelledAll ns s t)
    (hs : s.rest = []) : ns = [] := by
  have hempty : ∀ n u, ¬ Spelled n s u := by
    intro n u hn
    obtain ⟨v, hne, hv⟩ := hn.reads
    have hv := hv.rest
    rw [hs] at hv
    exact hne (List.append_eq_nil_iff.1 hv.symm).1
  cases h with
  | nil => rfl
  | cons _ hn _ => exact absurd hn (hempty _ _)
  | repeated _ hn _ _ => exact absurd hn (hempty _ _)

/-- The nodes of a pattern tile it, and what stands inside a node tiles the node, at every depth. No
span is empty. -/
theorem spans_tile_pattern {p : Text} {nodes : List Node} (h : parse p = .ok nodes) :
    (nodes = [] ↔ p = []) ∧ Span.Tiled 0 (nodes.map span) 0 p.length ∧
      ∀ n ∈ subnodesAll nodes, n.span.isEmpty = false ∧ n.InsideTiled := by
  have hs := spelledAll_of_parse h
  refine ⟨⟨?_, hs.eq_nil⟩, hs.tiled, ?_⟩
  · rintro rfl
    have hlen : (0 : Nat) = p.length := hs.tiled
    exact List.length_eq_zero_iff.1 hlen.symm
  · intro n hn
    obtain ⟨a, b, -, hn, -⟩ := spelledWithin_of_parse h hn
    exact ⟨hn.isEmpty_span, hn.insideTiled⟩

theorem spans_tile_named_group : ∃ nodes, parse "(?<y>a|[^b-c])+".toList = .ok nodes ∧
    Span.Tiled 0 (nodes.map span) 0 15 ∧
      ∀ n ∈ subnodesAll nodes, n.span.isEmpty = false ∧ n.InsideTiled := by
  have h : parse "(?<y>a|[^b-c])+".toList = .ok [
      .group [.alternation [.verbatim ['a'] ⟨5, 1⟩, .charList [.range 'b' 'c' ⟨9, 3⟩] true ⟨7, 6⟩]
        ⟨5, 8⟩] false (some ['y']) ⟨0, 14⟩,
      .quantifier ⟨1, none, false⟩ ⟨14, 1⟩] := by
    decide +kernel
  exact ⟨_, h, (spans_tile_pattern h).2⟩

end Node

end PatternAnatomy
