import PatternAnatomy.Proofs.Decoration.Coverage
import PatternAnatomy.Proofs.Node.Source

namespace PatternAnatomy

open Grammar

/-- Whether a decoration of the kind is about such characters. Classes of characters have kinds for
trees made by hand, and no pattern writes them. -/
def Decoration.Kind.Names (v : Text) : Kind → Prop
  | openSquareBracket => v = ['[']
  | characterListNegation => v = ['^']
  | closeSquareBracket => v = [']']
  | rangeStart | rangeEnd => ∃ c, v = [c]
  | rangeSymbol => v = ['-']
  | repetitionsCount => ∃ r, Repetition.Written r v
  | literalCharacter => ∃ c, c ≠ ']' ∧ v = [c]
  | literalString => v ≠ [] ∧ ∀ c ∈ v, c ∉ significant
  | groupStart => v = ['(']
  | nonCapturingGroup => v = ['?', ':']
  | groupEnd => v = [')']
  | alternation => v = ['|']
  | anyChar => v = ['.']
  | escape => v = ['\\']
  | digit | notDigit | whitespace | notWhitespace => False
  | wordBoundary | notWordBoundary | wordCharacter | notWordCharacter => False

namespace Decoration

/-- Whether each decoration covers characters of `p` that its kind is about. -/
def Fit (p : Text) (ds : List Decoration) : Prop := ∀ d ∈ ds, d.kind.Names (d.covered p)

variable {p : Text} {ds es : List Decoration}

theorem Fit.nil : Fit p [] := by simp [Fit]

theorem Fit.append (h : Fit p ds) (h' : Fit p es) : Fit p (ds ++ es) :=
  List.forall_mem_append.2 ⟨h, h'⟩

theorem fit_singleton {d : Decoration} (h : d.kind.Names (d.covered p)) : Fit p [d] := by
  simpa [Fit] using h

end Decoration

open Decoration

variable {p v : Text} {s t u : Place}

theorem Place.Reads.fit (h : s.Reads v t) (hs : (start p).Before s) (kind : Kind)
    (hv : kind.Names v) :
    Fit p [⟨kind, s.offset, v.length⟩] := by
  apply fit_singleton
  have hcovered : Decoration.covered p ⟨kind, s.offset, v.length⟩ = v := by
    rw [covered, ← hs.rest_eq_drop, h.rest, List.take_left]
  rwa [hcovered]

theorem Place.Reads.fit_spanning (h : s.Reads v t) (hs : (start p).Before s) (kind : Kind)
    (hv : kind.Names v) : Fit p [spanning kind (.between s.offset t.offset)] := by
  rw [h.length_span]
  exact h.fit hs kind hv

theorem Place.Before.fit_closing {c : Char} (h : s.Before t) (hc : t.Reads [c] u)
    (hs : (start p).Before s) (kind : Kind) (hv : kind.Names [c]) :
    Fit p [.single kind (Span.between s.offset u.offset).closing] := by
  rw [h.closing_span hc]
  exact hc.fit (hs.trans h) kind hv

theorem Item.Spelled.fit {i : Item} (h : i.Spelled s t) (hs : (Place.start p).Before s) :
    Fit p i.decorations := by
  cases h with
  | single h hc => exact h.fit_spanning hs _ ⟨_, hc, rfl⟩
  | range h =>
    obtain ⟨a, ha, h⟩ := Place.Reads.cons_iff.1 h
    obtain ⟨b, hb, hc⟩ := Place.Reads.cons_iff.1 h
    have hsymbol := hb.fit (hs.trans ha.before) .rangeSymbol rfl
    have hend := hc.fit (hs.trans (ha.before.trans hb.before)) .rangeEnd ⟨_, rfl⟩
    rw [ha.offset] at hsymbol
    rw [hb.offset, ha.offset] at hend
    exact (ha.fit hs .rangeStart ⟨_, rfl⟩).append (hsymbol.append hend)

theorem Item.SpelledAll.fit {is : List Item} (h : SpelledAll is s t)
    (hs : (Place.start p).Before s) : Fit p (is.flatMap Item.decorations) := by
  induction h with
  | nil => exact .nil
  | cons h _ ih =>
    obtain ⟨v, -, hv⟩ := h.reads
    exact (h.fit hs).append (ih (hs.trans hv.before))

theorem fit_opening {negated : Bool} (h : s.Reads (opening negated) t)
    (hs : (Place.start p).Before s) :
    Fit p (.single .openSquareBracket s.offset ::
      if negated then [.single .characterListNegation (s.offset + 1)] else []) := by
  cases negated with
  | false => exact h.fit hs .openSquareBracket rfl
  | true =>
    obtain ⟨a, ha, hb⟩ := Place.Reads.cons_iff.1 h
    have hcaret := hb.fit (hs.trans ha.before) .characterListNegation rfl
    rw [ha.offset] at hcaret
    exact (ha.fit hs .openSquareBracket rfl).append hcaret

namespace Node

theorem fit_header {nonCapturing : Bool} {name : Option Text}
    (h : s.Reads ('(' :: groupHeader nonCapturing name) t) (hs : (Place.start p).Before s) :
    Fit p (.single .groupStart s.offset ::
      if nonCapturing then [⟨.nonCapturingGroup, s.offset + 1, 2⟩] else []) := by
  obtain ⟨a, ha, h⟩ := Place.Reads.cons_iff.1 h
  have hopen := ha.fit hs .groupStart rfl
  cases nonCapturing with
  | false => exact hopen
  | true =>
    obtain ⟨b, hb, -⟩ := Place.Reads.append_iff.1 h
    have hmark := hb.fit (hs.trans ha.before) .nonCapturingGroup rfl
    rw [ha.offset] at hmark
    exact hopen.append hmark

mutual

theorem Spelled.fit : ∀ {n s t}, Spelled n s t → (Place.start p).Before s → Fit p n.decorations
  | _, _, _, .verbatim hne h hplain _, hs => h.fit_spanning hs _ ⟨hne, hplain⟩
  | _, _, _, .anyChar h, hs => h.fit_spanning hs _ rfl
  | _, _, _, .escape h, hs => h.fit_spanning hs _ rfl
  | _, _, _, .quantifier hw h _, hs => h.fit_spanning hs _ ⟨_, hw⟩
  | _, _, _, .charList ha _ _ his _ hb, hs =>
    ((fit_opening ha hs).append (his.fit (hs.trans ha.before))).append
      ((ha.before.trans his.before).fit_closing hb hs _ rfl)
  | _, _, _, .group ha _ hcs hb, hs =>
    ((fit_header ha hs).append (hcs.fit (hs.trans ha.before))).append
      ((ha.before.trans hcs.before).fit_closing hb hs _ rfl)
  | _, _, _, .alternation _ hbs, hs => hbs.fit hs

theorem SpelledAll.fit : ∀ {ns s t}, SpelledAll ns s t → (Place.start p).Before s →
    Fit p (decorationsAll ns)
  | _, _, _, .nil, _ => .nil
  | _, _, _, .cons _ h hns, hs => (h.fit hs).append (hns.fit (hs.trans h.before))
  | _, _, _, .repeated _ h hq hns, hs => by
    have ht := hs.trans h.before
    exact (h.fit hs).append ((hq.fit ht).append (hns.fit (ht.trans hq.before)))

theorem SpelledBarred.fit : ∀ {bs s t}, SpelledBarred bs s t → (Place.start p).Before s →
    Fit p (decorationsBarred bs)
  | _, _, _, .last _ h, hs => by
    rw [decorationsBarred]
    exact ((h.fit hs).append .nil).append .nil
  | _, _, _, .cons _ h hbar hbs, hs => by
    have ht := hs.trans h.before
    have hmark := hbar.fit ht .alternation rfl
    have hall := ((h.fit hs).append hmark).append (hbs.fit (ht.trans hbar.before))
    rw [← h.stop_span] at hall
    rw [decorationsBarred]
    cases hbs <;> exact hall

end

end Node

/-- Every decoration of a pattern covers characters that its kind is about. -/
theorem decorations_fit_pattern {p : Text} {nodes : List Node} (h : parse p = .ok nodes) :
    ∀ d ∈ decorations nodes, d.kind.Names (d.covered p) :=
  (spelledAll_of_parse h).fit (.refl _)

theorem decorations_fit_nested_group : ∃ nodes,
    parse "(?:[^a-b]|\\)\x7b,2\x7d.".toList = .ok nodes ∧
    ∀ d ∈ decorations nodes, d.kind.Names (d.covered "(?:[^a-b]|\\)\x7b,2\x7d.".toList) := by
  have h : parse "(?:[^a-b]|\\)\x7b,2\x7d.".toList = .ok [
      .group [.alternation [.charList [.range 'a' 'b' ⟨5, 3⟩] true ⟨3, 6⟩, .special .escape ⟨10, 1⟩]
        ⟨3, 8⟩] true none ⟨0, 12⟩,
      .quantifier ⟨0, some 2, false⟩ ⟨12, 4⟩, .special .anyChar ⟨16, 1⟩] := by
    decide +kernel
  exact ⟨_, h, decorations_fit_pattern h⟩

end PatternAnatomy
