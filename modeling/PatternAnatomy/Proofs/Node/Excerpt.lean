import Mathlib.Data.List.Induction
import PatternAnatomy.Proofs.Grammar.Rereading
import PatternAnatomy.Proofs.Node.Source
import PatternAnatomy.Proofs.Node.Splice
import PatternAnatomy.Proofs.Node.Tiling

namespace PatternAnatomy.Node

variable {p : Text} {nodes ns ms : List Node} {s t : Place}

/-- The characters that a pattern has for some of its nodes in a row are a pattern, which reads as
these nodes do. -/
theorem SpelledAll.parse_textIn (h : SpelledAll ns s t) (hs : (Place.start p).Before s) :
    ∃ ms, parse ((Span.between s.offset t.offset).textIn p) = .ok ms ∧
      ns = movedAll s.offset ms := by
  obtain ⟨v, hv⟩ := h.before
  obtain ⟨ms, rfl, hms⟩ := h.spliced (Text.replaces_nil t.rest) (Nat.le_refl _) (List.suffix_refl _)
  refine ⟨ms, parse_eq_ok_iff_spelledAll.2 ?_, rfl⟩
  have hstart : s.spliced s.offset t.rest [] = .start v := by
    apply Place.Reads.eq_of_eq
    · rw [Place.rest_spliced hv.rest, List.append_nil]
      rfl
    · exact Nat.sub_self _
  have hstop : t.spliced s.offset t.rest [] = ⟨v.length, []⟩ := by
    apply Place.Reads.eq_of_eq
    · rw [Place.rest_spliced (v := []) rfl]
      rfl
    · show t.offset - s.offset = v.length
      have ho := hv.offset
      omega
  rwa [hv.textIn hs, ← hstart, ← hstop]

/-- The inside of a group is a pattern by itself and reads as the children of the group do. -/
theorem parse_inside_group (h : parse p = .ok nodes) {cs : List Node} {nonCapturing : Bool}
    {name : Option Text} {sp : Span} (hm : .group cs nonCapturing name sp ∈ subnodesAll nodes) :
    ∃ ms, parse ((Span.between (sp.offset + 1 + headerLength nonCapturing name)
        (sp.stop - 1)).textIn p) = .ok ms ∧
      cs = movedAll (sp.offset + 1 + headerLength nonCapturing name) ms := by
  obtain ⟨s, t, hs, hgroup, -⟩ := spelledWithin_of_parse h hm
  cases hgroup with
  | group ha _ hcs hb =>
    have hopen := ha.offset
    have hclose := (ha.before.trans hcs.before).stop_span hb
    rw [List.length_cons, length_groupHeader, Nat.add_comm _ 1, ← Nat.add_assoc] at hopen
    have hstart : (Span.between s.offset t.offset).offset + 1 +
        headerLength nonCapturing name = _ := hopen.symm
    rw [hclose, Nat.add_sub_cancel, hstart]
    exact hcs.parse_textIn (hs.trans ha.before)

theorem parse_inside_named_group : ∃ nodes cs, parse "(?:a|(?<y>b-c[d-e])+)".toList = .ok nodes ∧
    .group cs false (some ['y']) ⟨5, 14⟩ ∈ subnodesAll nodes ∧
      ∃ ms, parse "b-c[d-e]".toList = .ok ms ∧ cs = movedAll 10 ms := by
  let cs : List Node :=
    [.verbatim ['b', '-', 'c'] ⟨10, 3⟩, .charList [.range 'd' 'e' ⟨14, 3⟩] false ⟨13, 5⟩]
  let group : Node := .group cs false (some ['y']) ⟨5, 14⟩
  let branches : List Node := [.verbatim ['a'] ⟨3, 1⟩, group]
  let nodes : List Node := [.group [.alternation branches ⟨3, 16⟩,
    .quantifier ⟨1, none, false⟩ ⟨19, 1⟩] true none ⟨0, 21⟩]
  have h : parse "(?:a|(?<y>b-c[d-e])+)".toList = .ok nodes := by decide +kernel
  have hbranch : group ∈ subnodesAll branches :=
    mem_subnodesAll_cons.2 (.inr (.inr (mem_subnodesAll_cons.2 (.inl rfl))))
  have hm : group ∈ subnodesAll nodes :=
    mem_subnodesAll_cons.2 (.inr (.inl (mem_subnodesAll_cons.2 (.inr (.inl hbranch)))))
  obtain ⟨ms, hms, hcs⟩ := parse_inside_group h hm
  have htext : (Span.between 10 18).textIn "(?:a|(?<y>b-c[d-e])+)".toList = "b-c[d-e]".toList := by
    decide +kernel
  exact ⟨_, cs, h, hm, ms, htext ▸ hms, hcs⟩

/-- Nodes can be told apart before every node that is no quantifier. -/
theorem SpelledAll.split {n : Node} (hn : ¬ n.IsQuantifier) (h : SpelledAll (ns ++ n :: ms) s t) :
    ∃ u, SpelledAll ns s u ∧ SpelledAll (n :: ms) u t := by
  induction ns using List.twoStepInduction generalizing s with
  | nil => exact ⟨s, .nil, h⟩
  | singleton m =>
    cases h with
    | cons hm h hns => exact ⟨_, .cons hm h .nil, hns⟩
    | repeated => exact absurd trivial hn
  | cons_cons m q ns ih ihq =>
    cases h with
    | cons hm h hns =>
      obtain ⟨u, hu, hrest⟩ := ihq q hns
      exact ⟨u, .cons hm h hu, hrest⟩
    | repeated hm h hq hns =>
      obtain ⟨u, hu, hrest⟩ := ih hns
      exact ⟨u, .repeated hm h hq hu, hrest⟩

theorem SpelledAll.offset_span {n : Node} (h : SpelledAll (n :: ns) s t) :
    n.span.offset = s.offset := by
  cases h with
  | cons _ h | repeated _ h => exact h.offset_span

/-- A pattern is cut into two patterns before every node that is no quantifier, and its nodes with
it. -/
theorem parse_take_drop (h : parse p = .ok nodes) {i : Nat} {n : Node} (hi : nodes[i]? = some n)
    (hn : ¬ n.IsQuantifier) :
    parse (p.take n.span.offset) = .ok (nodes.take i) ∧
      ∃ ms, parse (p.drop n.span.offset) = .ok ms ∧ nodes.drop i = movedAll n.span.offset ms := by
  obtain ⟨hlt, hget⟩ := List.getElem?_eq_some_iff.1 hi
  have hdrop : nodes.drop i = n :: nodes.drop (i + 1) := by rw [List.drop_eq_getElem_cons hlt, hget]
  have hs := spelledAll_of_parse h
  rw [← List.take_append_drop i nodes, hdrop] at hs
  obtain ⟨u, hbefore, hfrom⟩ := hs.split hn
  obtain ⟨ms, hms, hbeforems : _ = movedAll 0 ms⟩ := hbefore.parse_textIn (.refl _)
  obtain ⟨ms', hms', hfromms⟩ := hfrom.parse_textIn hbefore.before
  have htake : (Span.between 0 u.offset).textIn p = p.take u.offset := by
    simp [Span.textIn, Span.between]
  have hdropped : (Span.between u.offset p.length).textIn p = p.drop u.offset := by
    apply List.take_of_length_le
    simp [Span.between]
  rw [hdrop, hfrom.offset_span]
  constructor
  · rw [hbeforems, movedAll_zero, ← htake]
    exact hms
  · exact ⟨ms', hdropped ▸ hms', hfromms⟩

theorem parse_take_drop_behind_repetition :
    ∃ nodes n, parse "[a-b]+(c)*.".toList = .ok nodes ∧ nodes[2]? = some n ∧ ¬ n.IsQuantifier ∧
      parse "[a-b]+".toList = .ok (nodes.take 2) ∧
        ∃ ms, parse "(c)*.".toList = .ok ms ∧ nodes.drop 2 = movedAll 6 ms := by
  let n : Node := .group [.verbatim ['c'] ⟨7, 1⟩] false none ⟨6, 3⟩
  have h : parse "[a-b]+(c)*.".toList = .ok [
      .charList [.range 'a' 'b' ⟨1, 3⟩] false ⟨0, 5⟩, .quantifier ⟨1, none, false⟩ ⟨5, 1⟩, n,
      .quantifier ⟨0, none, false⟩ ⟨9, 1⟩, .special .anyChar ⟨10, 1⟩] := by
    decide +kernel
  have hcut := parse_take_drop h (i := 2) (n := n) rfl id
  have htake : "[a-b]+(c)*.".toList.take n.span.offset = "[a-b]+".toList := by decide +kernel
  have hdrop : "[a-b]+(c)*.".toList.drop n.span.offset = "(c)*.".toList := by decide +kernel
  rw [htake, hdrop] at hcut
  exact ⟨_, n, h, rfl, id, hcut⟩

end PatternAnatomy.Node
