import PatternAnatomy.Proofs.Decoration.Coverage
import PatternAnatomy.Proofs.Decoration.Painting
import PatternAnatomy.Proofs.Node.Source
import PatternAnatomy.Proofs.Node.Tiling

namespace PatternAnatomy

open Grammar Painting

/-- A part of a text that is painted as one: a decoration, or characters that none covers. -/
inductive Stretch where
  | decorated (d : Decoration)
  | bare (s : Span)

namespace Stretch

def span : Stretch → Span
  | decorated d => d.span
  | bare s => s

def decoration? : Stretch → Option Decoration
  | decorated d => some d
  | bare _ => none

def bare? : Stretch → Option Span
  | decorated _ => none
  | bare s => some s

def painted (p : Text) (palette : Palette) : Stretch → Text
  | decorated d => match palette.colorOf d.kind with
    | some c => onBackground c (d.covered p)
    | none => d.covered p
  | bare s => s.textIn p

end Stretch

variable {p rest : Text} {palette : Palette} {colored : Bool} {cursor i j k : Nat}
  {ds : List Decoration} {hs : List Span} {ss : List Stretch}

theorem Decoration.Laid.exists_stretches (h : Laid ds hs i j) : ∃ ss : List Stretch,
    Span.Tiled 0 (ss.map Stretch.span) i j ∧ ss.filterMap Stretch.decoration? = ds ∧
      ss.filterMap Stretch.bare? = hs := by
  induction h with
  | nil => exact ⟨[], rfl, rfl, rfl⟩
  | @decoration ds hs k d hd _ ih =>
    obtain ⟨ss, hss, rfl, rfl⟩ := ih
    exact ⟨.decorated d :: ss, Span.tiled_cons_iff.2 ⟨rfl, hss⟩, rfl, rfl⟩
  | @hole ds hs k s _ ih =>
    obtain ⟨ss, hss, rfl, rfl⟩ := ih
    exact ⟨.bare s :: ss, Span.tiled_cons_iff.2 ⟨rfl, hss⟩, rfl, rfl⟩

theorem Span.Tiled.le {ss : List Span} (h : Tiled 0 ss i j) : i ≤ j := by
  induction ss generalizing i with
  | nil => exact Nat.le_of_eq h
  | cons s ss ih =>
    obtain ⟨hs, hss⟩ := tiled_cons_iff.1 h
    have hle := ih hss
    rw [Span.stop] at hle
    omega

theorem Stretch.le_start (h : Span.Tiled 0 (ss.map span) i j) :
    ∀ d ∈ ss.filterMap decoration?, i ≤ d.start := by
  induction ss generalizing i with
  | nil => simp
  | cons x ss ih =>
    obtain ⟨hx, hss⟩ := Span.tiled_cons_iff.1 h
    have hle : i ≤ x.span.stop := by
      rw [Span.stop]
      omega
    cases x with
    | decorated d =>
      intro e he
      rcases List.mem_cons.1 he with rfl | he
      · exact Nat.le_of_eq hx.symm
      · exact Nat.le_trans hle (ih hss e he)
    | bare s =>
      intro e he
      exact Nat.le_trans hle (ih hss e he)

namespace Painting

theorem paintFrom_of_le_start (hk : k ≤ rest.length) (h : ∀ d ∈ ds, cursor + k ≤ d.start) :
    paintFrom palette colored cursor rest ds =
      rest.take k ++ paintFrom palette colored (cursor + k) (rest.drop k) ds := by
  cases ds with
  | nil => rw [paintFrom, paintFrom, List.take_append_drop]
  | cons d ds =>
    have hd := h d List.mem_cons_self
    obtain ⟨g, hg⟩ := Nat.exists_eq_add_of_le hd
    have hgap : d.start - cursor = k + g := by omega
    have hgap' : d.start - (cursor + k) = g := by omega
    rw [paintFrom, if_neg (by omega), paintFrom, if_neg (by omega)]
    simp only [hgap, hgap', List.take_add, List.drop_drop, List.length_append, List.append_assoc,
      List.length_take_of_le hk, Nat.add_assoc]

/-- Stretches that touch, from the cursor to the end of the pattern, are painted one by one. -/
theorem paintFrom_stretches (h : Span.Tiled 0 (ss.map Stretch.span) i p.length) :
    paintFrom palette true i (p.drop i) (ss.filterMap Stretch.decoration?) =
      ss.flatMap (Stretch.painted p palette) := by
  induction ss generalizing i with
  | nil =>
    have hi : i = p.length := h
    rw [hi, List.drop_length]
    rfl
  | cons x ss ih =>
    have hi := h.le
    obtain ⟨hx, hss⟩ := Span.tiled_cons_iff.1 h
    have hle := hss.le
    rw [List.flatMap_cons, ← ih hss]
    cases x with
    | decorated d =>
      -- Stretches touch, so that the cursor has come just to where the decoration starts.
      have hd : d.start = i := hx
      have hstop : d.stop ≤ p.length := hle
      have hpaint : paintFrom palette true i (p.drop i) (d :: ss.filterMap Stretch.decoration?) =
          _ := paintFrom_cons hi (Nat.le_of_eq hd.symm)
      rw [hd, Nat.sub_self, List.take_zero, List.nil_append, Nat.min_eq_left hstop] at hpaint
      exact hpaint
    | bare s =>
      have hs : s.offset = i := hx
      have hlength : s.length ≤ (p.drop i).length := by
        rw [Stretch.span, Span.stop] at hle
        rw [List.length_drop]
        omega
      have hstart := Stretch.le_start hss
      rw [Stretch.span, Span.stop, hs] at hstart ⊢
      rw [Stretch.painted, Span.textIn, hs, ← List.drop_drop]
      exact paintFrom_of_le_start hlength hstart

end Painting

namespace Node

/-- The header that names a group stands right behind the opening of the group. -/
theorem textIn_nameSpan {nodes cs : List Node} {nonCapturing : Bool} {name : Text} {s : Span}
    (h : parse p = .ok nodes) (hn : group cs nonCapturing (some name) s ∈ subnodesAll nodes) :
    (nameSpan s.offset nonCapturing name).textIn p = nameHeader (some name) := by
  obtain ⟨a, b, hbefore, hspelled, -⟩ := spelledWithin_of_parse h hn
  cases hspelled with
  | @group _ _ t _ _ _ _ ha _ _ _ =>
    have hrest : p.drop a.offset = '(' :: (groupHeader nonCapturing (some name) ++ t.rest) := by
      rw [← hbefore.rest_eq_drop, ha.rest, List.cons_append]
    rw [nameSpan, Span.textIn, Span.between, Nat.add_assoc, ← List.drop_drop, hrest,
      Nat.add_comm 1, List.drop_succ_cons, drop_groupHeader, List.take_left]

end Node

/-- A painted pattern is its stretches one behind the other: its decorations in their order, each in
the color of its kind, and between them nothing but the headers that name its groups, left bare. -/
theorem paint_decorations {nodes : List Node} (h : parse p = .ok nodes) (palette : Palette) :
    (∃ ss : List Stretch, Span.Tiled 0 (ss.map Stretch.span) 0 p.length ∧
      ss.filterMap Stretch.decoration? = decorations nodes ∧
      ss.filterMap Stretch.bare? = Node.nameSpans nodes ∧
      paint p (decorations nodes) palette true = ss.flatMap (Stretch.painted p palette)) ∧
    ∀ cs nonCapturing name s, Node.group cs nonCapturing (some name) s ∈ Node.subnodesAll nodes →
      (Node.nameSpan s.offset nonCapturing name).textIn p = nameHeader (some name) := by
  constructor
  · obtain ⟨ss, hss, hdecorations, hbare⟩ := (spelledAll_of_parse h).laid.exists_stretches
    refine ⟨ss, hss, hdecorations, hbare, ?_⟩
    rw [decorations, ← hdecorations]
    exact paintFrom_stretches hss
  · intro cs nonCapturing name s hs
    exact Node.textIn_nameSpan h hs

theorem paint_decorations_named_group : ∃ nodes, parse "(?<y>a)+".toList = .ok nodes ∧
    ∃ ss : List Stretch, Span.Tiled 0 (ss.map Stretch.span) 0 8 ∧
      ss.filterMap Stretch.decoration? = decorations nodes ∧
      ss.filterMap Stretch.bare? = [⟨1, 4⟩] ∧
      paint "(?<y>a)+".toList (decorations nodes) (fun c => if c = .group then some .red else none)
        true = ss.flatMap (Stretch.painted "(?<y>a)+".toList
          fun c => if c = .group then some .red else none) := by
  have h : parse "(?<y>a)+".toList = .ok [
      .group [.verbatim ['a'] ⟨5, 1⟩] false (some ['y']) ⟨0, 7⟩,
      .quantifier ⟨1, none, false⟩ ⟨7, 1⟩] := by
    decide +kernel
  exact ⟨_, h, (paint_decorations h fun c => if c = .group then some .red else none).1⟩

end PatternAnatomy
