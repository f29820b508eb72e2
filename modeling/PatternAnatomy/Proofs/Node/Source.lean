import PatternAnatomy.Node.Label
import PatternAnatomy.Proofs.Node.Subnodes

namespace PatternAnatomy

/-- The characters of a text that a span covers. -/
def Span.textIn (p : Text) (s : Span) : Text := (p.drop s.offset).take s.length

namespace Place

variable {p v : Text} {s t : Place}

theorem Reads.textIn (h : s.Reads v t) (hs : (start p).Before s) :
    (Span.between s.offset t.offset).textIn p = v := by
  rw [h.length_span, Span.textIn, ← hs.rest_eq_drop, h.rest, List.take_left]

theorem Before.reads_textIn (h : s.Before t) (hs : (start p).Before s) :
    s.Reads ((Span.between s.offset t.offset).textIn p) t := by
  obtain ⟨v, hv⟩ := h
  rwa [hv.textIn hs]

theorem Before.getElem? (hs : (start p).Before s) : p[s.offset]? = s.rest.head? := by
  rw [hs.rest_eq_drop, List.head?_drop]

end Place

theorem Item.Spelled.textIn {p : Text} {i : Item} {s t : Place} (h : i.Spelled s t)
    (hs : (Place.start p).Before s) : i.span.textIn p = i.render := by
  cases h with
  | range h | single h => exact h.textIn hs

theorem Item.SpelledAll.textIn {p : Text} {is : List Item} {s t : Place} (h : SpelledAll is s t)
    (hs : (Place.start p).Before s) : s.Reads (is.flatMap fun i => i.span.textIn p) t ∧
      ∀ i ∈ is, i.span.textIn p = i.render := by
  induction h with
  | nil => exact ⟨.refl _, by simp⟩
  | cons h _ ih =>
    obtain ⟨v, -, hv⟩ := h.reads
    obtain ⟨hrest, hrender⟩ := ih (hs.trans hv.before)
    have hi := hv.before.reads_textIn hs
    rw [← h.span_eq] at hi
    exact ⟨hi.trans hrest, by simpa using ⟨h.textIn hs, hrender⟩⟩

namespace Node

open Grammar

variable {p : Text} {s t : Place}

theorem Spelled.reads_textIn {n : Node} (h : n.Spelled s t) (hs : (Place.start p).Before s) :
    s.Reads (n.span.textIn p) t := by
  rw [h.span_eq]
  exact h.before.reads_textIn hs

theorem SpelledAll.reads_textIn {ns : List Node} (h : SpelledAll ns s t)
    (hs : (Place.start p).Before s) : s.Reads (ns.flatMap fun n => n.span.textIn p) t := by
  revert hs
  apply h.consInduction (motive := fun ns s t => (Place.start p).Before s →
    s.Reads (ns.flatMap fun n => n.span.textIn p) t)
  · intro s _
    exact .refl s
  · intro n ns s t u hn hrest hs
    exact (hn.reads_textIn hs).trans (hrest (hs.trans hn.before))

theorem SpelledBarred.reads_textIn {bs : List Node} (h : SpelledBarred bs s t)
    (hs : (Place.start p).Before s) :
    s.Reads (Text.joined ['|'] (bs.map fun b => b.span.textIn p)) t := by
  revert hs
  apply h.consInduction (motive := fun bs s t => (Place.start p).Before s →
    s.Reads (Text.joined ['|'] (bs.map fun b => b.span.textIn p)) t)
  · intro n s t hn hs
    exact hn.reads_textIn hs
  · intro n b bs s t u v hn hbar _ hrest hs
    exact ((hn.reads_textIn hs).trans hbar).trans (hrest (hs.trans (hn.before.trans hbar.before)))

/-- Between two branches stands a bar, and nothing else does. -/
theorem SpelledBarred.isChain {bs : List Node} (h : SpelledBarred bs s t)
    (hs : (Place.start p).Before s) :
    bs.IsChain fun b c => p[b.span.stop]? = some '|' ∧ c.span.offset = b.span.stop + 1 := by
  revert hs
  apply h.consInduction (motive := fun bs s _ => (Place.start p).Before s →
    bs.IsChain fun b c => p[b.span.stop]? = some '|' ∧ c.span.offset = b.span.stop + 1)
  · intro n s t _ _
    exact .singleton n
  · intro n b bs s t u v hn hbar hb hrest hs
    have hbarred : p[n.span.stop]? = some '|' := by
      rw [hn.stop_span, (hs.trans hn.before).getElem?, hbar.rest]
      rfl
    have hnext : b.span.offset = n.span.stop + 1 := by
      rw [hb, hbar.offset, hn.stop_span, List.length_singleton]
    exact .cons_cons ⟨hbarred, hnext⟩ (hrest (hs.trans (hn.before.trans hbar.before)))

/-- Whether `p` shows, under the span of a node, what the node's fields describe. -/
def ShownIn (p : Text) : Node → Prop
  | verbatim v s => s.textIn p = v ∧ ∀ c, p[s.stop]? = some c → c ∈ significant
  | special k s => k = .anyChar ∧ s.textIn p = ['.'] ∨ k = .escape ∧ s.textIn p = ['\\']
  | charList is negated s =>
    s.textIn p = opening negated ++ (is.flatMap fun i => i.span.textIn p) ++ [']'] ∧
      (negated = true ↔ p[s.offset + 1]? = some '^') ∧ ∀ i ∈ is, i.span.textIn p = i.render
  | quantifier r s => r.Written (s.textIn p)
  | group cs nonCapturing name s =>
    s.textIn p = '(' :: groupHeader nonCapturing name ++
      (cs.flatMap fun c => c.span.textIn p) ++ [')'] ∧
      (nonCapturing = true ↔ ['?', ':'] <+: p.drop (s.offset + 1)) ∧
      ∀ w, name = some w ↔ '>' ∉ w ∧
        nameHeader (some w) <+: p.drop (s.offset + 1 + if nonCapturing then 2 else 0)
  | alternation bs s =>
    s.textIn p = Text.joined ['|'] (bs.map fun b => b.span.textIn p) ∧
      bs.IsChain fun b c => p[b.span.stop]? = some '|' ∧ c.span.offset = b.span.stop + 1

theorem Spelled.shownIn {n : Node} (h : n.Spelled s t) (hs : (Place.start p).Before s) :
    n.ShownIn p := by
  cases h with
  | verbatim hne h hplain hend =>
    refine ⟨h.textIn hs, ?_⟩
    rw [h.stop_span, (hs.trans h.before).getElem?]
    exact hend
  | anyChar h => exact .inl ⟨rfl, h.textIn hs⟩
  | escape h => exact .inr ⟨rfl, h.textIn hs⟩
  | quantifier hw h => simpa only [ShownIn, h.textIn hs] using hw
  | charList ha hcaret _ his _ hb =>
    obtain ⟨hitems, hrender⟩ := his.textIn (hs.trans ha.before)
    refine ⟨((ha.trans hitems).trans hb).textIn hs, ?_, hrender⟩
    show _ ↔ p[s.offset + 1]? = _
    rw [← List.head?_drop, ← List.drop_drop, ← hs.rest_eq_drop, ha.rest]
    exact negated_iff hcaret
  | group ha hname hcs hb =>
    have hchildren := hcs.reads_textIn (hs.trans ha.before)
    have hhead := hcs.head?_ne hb.closes (c := '?') (by decide) (by decide)
    have hrest := hs.rest_eq_drop.symm.trans ha.rest
    refine ⟨((ha.trans hchildren).trans hb).textIn hs, ?_, ?_⟩
    · show _ ↔ _ <+: p.drop (s.offset + 1)
      rw [← List.drop_drop, hrest]
      exact nonCapturing_iff hhead
    · intro w
      show _ ↔ _ ∧ _ <+: p.drop (s.offset + 1 + _)
      rw [← List.drop_drop, ← List.drop_drop, hrest, List.cons_append, List.drop_one,
        List.tail_cons, drop_groupHeader]
      exact name_eq_some_iff hname hhead
  | alternation _ hbs => exact ⟨(hbs.reads_textIn hs).textIn hs, hbs.isChain hs⟩

/-- Under the span of every node stands the syntax that the node describes. -/
theorem shownIn_of_parse {nodes : List Node} (h : parse p = .ok nodes) :
    ∀ n ∈ subnodesAll nodes, n.ShownIn p := by
  intro n hn
  obtain ⟨a, b, ha, hn, -⟩ := spelledWithin_of_parse h hn
  exact hn.shownIn ha

theorem shownIn_unnamed_group : ∃ nodes, parse "(?:a.[b-c])*?".toList = .ok nodes ∧
    ∀ n ∈ subnodesAll nodes, n.ShownIn "(?:a.[b-c])*?".toList := by
  have h : parse "(?:a.[b-c])*?".toList = .ok [
      .group [.verbatim ['a'] ⟨3, 1⟩, .special .anyChar ⟨4, 1⟩,
        .charList [.range 'b' 'c' ⟨6, 3⟩] false ⟨5, 5⟩] true none ⟨0, 11⟩,
      .quantifier ⟨0, none, true⟩ ⟨11, 2⟩] := by
    decide +kernel
  exact ⟨_, h, shownIn_of_parse h⟩

end Node

end PatternAnatomy
