import PatternAnatomy.Node.Decorations
import PatternAnatomy.Proofs.Node.Subnodes

namespace PatternAnatomy

/-- The decorations `ds` and the spans `hs` that they leave out, each in order, fill the text
between two places. -/
inductive Decoration.Laid : List Decoration → List Span → Nat → Nat → Prop where
  | nil : Laid [] [] i i
  | decoration {d : Decoration} (hd : 0 < d.length) (h : Laid ds hs d.stop k) :
    Laid (d :: ds) hs d.start k
  | hole {s : Span} (h : Laid ds hs s.stop k) : Laid ds (s :: hs) s.offset k

namespace Decoration.Laid

variable {ds es : List Decoration} {hs ks : List Span} {i j k : Nat}

theorem single {d : Decoration} (hd : 0 < d.length) : Laid [d] [] d.start d.stop :=
  .decoration hd .nil

theorem append (h : Laid ds hs i j) (h' : Laid es ks j k) : Laid (ds ++ es) (hs ++ ks) i k := by
  induction h with
  | nil => exact h'
  | decoration hd _ ih => exact .decoration hd (ih h')
  | hole _ ih => exact .hole (ih h')

end Decoration.Laid

/-- From `start` to `stop` the decorations `ds` stand in order, and every character there belongs to
just one of them or of the spans `holes` that they leave out. -/
structure Decoration.Cover (ds : List Decoration) (holes : List Span) (start stop : Nat) :
    Prop where
  le : start ≤ stop
  within : ∀ d ∈ ds, 0 < d.length ∧ start ≤ d.start ∧ d.stop ≤ stop
  ordered : ds.Pairwise fun d e => d.stop ≤ e.start
  once : ∀ i, ds.countP (·.span.contains i) + holes.countP (·.contains i) =
    if start ≤ i ∧ i < stop then 1 else 0

namespace Decoration.Cover

variable {ds es : List Decoration} {hs ks : List Span} {i j k : Nat}

theorem nil : Cover [] [] i i where
  le := Nat.le_refl i
  within := by simp
  ordered := .nil
  once := by
    intro l
    rw [if_neg (by omega)]
    rfl

theorem decoration {d : Decoration} (hd : 0 < d.length) : Cover [d] [] d.start d.stop where
  le := Nat.le_add_right _ _
  within := by simp [hd]
  ordered := List.pairwise_singleton _ _
  once := by
    intro l
    simp only [List.countP_cons, List.countP_nil, Span.contains_iff, Nat.zero_add, Nat.add_zero]
    rfl

theorem hole {s : Span} : Cover [] [s] s.offset s.stop where
  le := Nat.le_add_right _ _
  within := by simp
  ordered := .nil
  once := by
    intro l
    simp [List.countP_cons, Span.contains_iff]

theorem append (h : Cover ds hs i j) (h' : Cover es ks j k) : Cover (ds ++ es) (hs ++ ks) i k where
  le := Nat.le_trans h.le h'.le
  within := by
    have hle := h.le
    have hle' := h'.le
    intro d hd
    rcases List.mem_append.1 hd with hd | hd
    · have hwithin := h.within d hd
      omega
    · have hwithin := h'.within d hd
      omega
  ordered := by
    refine List.pairwise_append.2 ⟨h.ordered, h'.ordered, ?_⟩
    intro d hd e he
    have hstop := (h.within d hd).2.2
    have hstart := (h'.within e he).2.1
    omega
  once := by
    intro l
    have hle := h.le
    have hle' := h'.le
    have hsum : (ds ++ es).countP (·.span.contains l) + (hs ++ ks).countP (·.contains l) =
        (if i ≤ l ∧ l < j then 1 else 0) + if j ≤ l ∧ l < k then 1 else 0 := by
      rw [← h.once l, ← h'.once l, List.countP_append, List.countP_append]
      omega
    rw [hsum]
    -- The two stretches meet at `j` and share no character.
    split_ifs <;> omega

end Decoration.Cover

theorem Decoration.Laid.cover {ds : List Decoration} {hs : List Span} {i j : Nat}
    (h : Laid ds hs i j) : Cover ds hs i j := by
  induction h with
  | nil => exact .nil
  | decoration hd _ ih => exact (Cover.decoration hd).append ih
  | hole _ ih => exact Cover.hole.append ih

open Decoration Grammar

variable {s t u : Place} {v : Text}

theorem Place.Reads.laid (h : s.Reads v t) (hv : v ≠ []) (kind : Kind) :
    Laid [spanning kind (.between s.offset t.offset)] [] s.offset t.offset := by
  rw [h.length_span, h.offset]
  exact .single (List.length_pos_iff.2 hv)

theorem Place.Reads.laid_single {c : Char} (h : s.Reads [c] t) (kind : Kind) :
    Laid [.single kind s.offset] [] s.offset t.offset := by
  rw [h.offset]
  exact .single Nat.one_pos

theorem Place.Before.closing_span {c : Char} (h : s.Before t) (hc : t.Reads [c] u) :
    (Span.between s.offset u.offset).closing = t.offset := by
  rw [Span.closing, h.last?_span hc]
  rfl

theorem Place.Before.laid_closing {c : Char} (h : s.Before t) (hc : t.Reads [c] u) (kind : Kind) :
    Laid [.single kind (Span.between s.offset u.offset).closing] [] t.offset u.offset := by
  rw [h.closing_span hc]
  exact hc.laid_single kind

theorem Item.Spelled.laid {i : Item} (h : i.Spelled s t) :
    Laid i.decorations [] s.offset t.offset := by
  cases h with
  | range h =>
    rw [h.offset]
    exact (Laid.single Nat.one_pos).append
      ((Laid.single Nat.one_pos).append (.single Nat.one_pos))
  | single h => exact h.laid (by simp) _

theorem Item.SpelledAll.laid {is : List Item} (h : SpelledAll is s t) :
    Laid (is.flatMap Item.decorations) [] s.offset t.offset := by
  induction h with
  | nil => exact .nil
  | cons h _ ih => exact h.laid.append ih

theorem laid_opening (negated : Bool) (h : s.Reads (opening negated) t) :
    Laid (.single .openSquareBracket s.offset ::
        if negated then [.single .characterListNegation (s.offset + 1)] else []) []
      s.offset t.offset := by
  rw [h.offset]
  cases negated with
  | true => exact (Laid.single Nat.one_pos).append (.single Nat.one_pos)
  | false => exact .single Nat.one_pos

namespace Node

def nameSpan (start : Nat) (nonCapturing : Bool) (name : Text) : Span :=
  ⟨start + 1 + (if nonCapturing then 2 else 0), (nameHeader (some name)).length⟩

def nameSpan? : Node → Option Span
  | group _ nonCapturing name s => name.map (nameSpan s.offset nonCapturing)
  | _ => none

/-- The headers that name a group, at any depth. -/
def nameSpans (nodes : List Node) : List Span := (subnodesAll nodes).filterMap nameSpan?

theorem nameSpans_cons (n : Node) (ns : List Node) :
    nameSpans (n :: ns) = n.nameSpan?.toList ++ nameSpans n.children ++ nameSpans ns := by
  rw [nameSpans, subnodesAll, subnodes_eq, List.cons_append, List.filterMap_cons]
  cases n.nameSpan? <;> simp [nameSpans]

theorem laid_header {nonCapturing : Bool} {name : Option Text}
    (h : s.Reads ('(' :: groupHeader nonCapturing name) t) :
    Laid (.single .groupStart s.offset ::
        if nonCapturing then [⟨.nonCapturingGroup, s.offset + 1, 2⟩] else [])
      (name.map (nameSpan s.offset nonCapturing)).toList s.offset t.offset := by
  have hmarker : Laid (.single .groupStart s.offset ::
        if nonCapturing then [⟨.nonCapturingGroup, s.offset + 1, 2⟩] else []) []
      s.offset (s.offset + 1 + if nonCapturing then 2 else 0) := by
    cases nonCapturing with
    | true => exact (Laid.single Nat.one_pos).append (.single Nat.two_pos)
    | false => exact .single Nat.one_pos
  have ht : t.offset =
      s.offset + 1 + (if nonCapturing then 2 else 0) + (nameHeader name).length := by
    have ho := h.offset
    cases nonCapturing <;> simp only [groupHeader, List.length_cons, List.length_append] at ho <;>
      simp at ho ⊢ <;> omega
  rw [ht]
  cases name with
  | none => exact hmarker
  | some w =>
    have hname : Laid [] [nameSpan s.offset nonCapturing w] _ _ := .hole .nil
    have hall := hmarker.append hname
    rw [List.append_nil, List.nil_append] at hall
    exact hall

mutual

theorem Spelled.laid : ∀ {n s t}, Spelled n s t →
    Laid n.decorations (n.nameSpan?.toList ++ nameSpans n.children) s.offset t.offset
  | _, _, _, .verbatim hne h _ _ => h.laid hne _
  | _, _, _, .anyChar h => h.laid (by simp) _
  | _, _, _, .escape h => h.laid (by simp) _
  | _, _, _, .quantifier hw h _ => h.laid hw.ne_nil _
  | _, _, _, .charList ha _ _ his _ hb =>
    ((laid_opening _ ha).append his.laid).append ((ha.before.trans his.before).laid_closing hb _)
  | _, _, _, .group ha _ hcs hb => by
    have hall := ((laid_header ha).append hcs.laid).append
      ((ha.before.trans hcs.before).laid_closing hb .groupEnd)
    rw [List.append_nil] at hall
    exact hall
  | _, _, _, .alternation _ hbs => hbs.laid

theorem SpelledAll.laid : ∀ {ns s t}, SpelledAll ns s t →
    Laid (decorationsAll ns) (nameSpans ns) s.offset t.offset
  | _, _, _, .nil => .nil
  | _, _, _, .cons _ h hns => by
    rw [nameSpans_cons]
    exact h.laid.append hns.laid
  | _, _, _, .repeated _ h hq hns => by
    rw [nameSpans_cons, nameSpans_cons]
    exact h.laid.append (hq.laid.append hns.laid)

theorem SpelledBarred.laid : ∀ {bs s t}, SpelledBarred bs s t →
    Laid (decorationsBarred bs) (nameSpans bs) s.offset t.offset
  | _, _, _, .last _ h => by
    have hall := h.laid.append .nil
    rw [nameSpans_cons, decorationsBarred, List.append_assoc]
    exact hall
  | _, _, _, .cons _ h hbar hbs => by
    have hall := (h.laid.append (hbar.laid_single .alternation)).append hbs.laid
    rw [List.append_nil, ← h.stop_span] at hall
    rw [nameSpans_cons, decorationsBarred]
    cases hbs <;> exact hall

end

theorem SpelledAll.cover {ns : List Node} (h : SpelledAll ns s t) :
    Cover (decorationsAll ns) (nameSpans ns) s.offset t.offset :=
  h.laid.cover

end Node

/-- The decorations of a pattern are told apart by where they stand, and they leave out nothing but
the names of its groups. -/
theorem decorations_cover_pattern {p : Text} {nodes : List Node} (h : parse p = .ok nodes) :
    (∀ d ∈ decorations nodes, 0 < d.length ∧ d.stop ≤ p.length) ∧
      (decorations nodes).Pairwise (fun d e => d.start < e.start ∧ d.stop ≤ e.start) ∧
      ∀ i < p.length, (decorations nodes).countP (·.span.contains i) =
        if (Node.nameSpans nodes).any (·.contains i) then 0 else 1 := by
  have hcover : Cover (decorations nodes) (Node.nameSpans nodes) 0 p.length :=
    (spelledAll_of_parse h).cover
  refine ⟨?_, ?_, ?_⟩
  · intro d hd
    obtain ⟨hpos, -, hstop⟩ := hcover.within d hd
    exact ⟨hpos, hstop⟩
  · refine hcover.ordered.imp_of_mem ?_
    intro d e hd _ hde
    have hpos := (hcover.within d hd).1
    have hstart : d.start < d.stop := Nat.lt_add_of_pos_right hpos
    exact ⟨by omega, hde⟩
  · intro i hi
    have honce := hcover.once i
    rw [if_pos ⟨Nat.zero_le i, hi⟩] at honce
    have hname : (Node.nameSpans nodes).any (·.contains i) = true ↔
        0 < (Node.nameSpans nodes).countP (·.contains i) := by
      rw [List.any_eq_true, List.countP_pos_iff]
    split
    next hany =>
      have hpos := hname.1 hany
      omega
    next hno =>
      have hzero := mt hname.2 hno
      omega

theorem decorations_cover_named_group : ∃ nodes, parse "(?<y>a|\\).+".toList = .ok nodes ∧
    (∀ d ∈ decorations nodes, 0 < d.length ∧ d.stop ≤ 11) ∧
      (decorations nodes).Pairwise (fun d e => d.start < e.start ∧ d.stop ≤ e.start) ∧
      ∀ i < 11, (decorations nodes).countP (·.span.contains i) =
        if (Node.nameSpans nodes).any (·.contains i) then 0 else 1 := by
  have h : parse "(?<y>a|\\).+".toList = .ok [
      .group [.alternation [.verbatim ['a'] ⟨5, 1⟩, .special .escape ⟨7, 1⟩] ⟨5, 3⟩] false
        (some ['y']) ⟨0, 9⟩,
      .special .anyChar ⟨9, 1⟩, .quantifier ⟨1, none, false⟩ ⟨10, 1⟩] := by
    decide +kernel
  exact ⟨_, h, decorations_cover_pattern h⟩

end PatternAnatomy
