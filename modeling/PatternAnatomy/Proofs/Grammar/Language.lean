import PatternAnatomy.Proofs.Grammar.Spelling

namespace PatternAnatomy

namespace Grammar

open Reader Node

/-- What is left behind one item: a range where there can be one, else a character. -/
def behindItem : Text → Option Text
  | _ :: '-' :: _ :: t => some t
  | c :: t => if c = ']' then none else some t
  | [] => none

/-- Items are taken from `s` on until no further one can be. -/
inductive Scans : Text → Text → Prop where
  | stop {s : Text} (h : behindItem s = none) : Scans s s
  | item {s t u : Text} (h : behindItem s = some t) (hs : Scans t u) : Scans s u

def behindCaret : Text → Text
  | '^' :: t => t
  | t => t

/-- Behind an opening bracket, a character list reaches from `s` to `t`. -/
def ListReaches (s t : Text) : Prop :=
  behindItem (behindCaret s) ≠ none ∧ Scans (behindCaret s) (']' :: t)

/-- The parts of a pattern: a pattern is a sequence of runs, a run has atoms with bars between
them. -/
inductive Part where
  | pattern | run | atoms | atom

/-- The characters from the beginning of the first text to the beginning of the second, which is
what is left of it, derive a part of a pattern. -/
inductive Derives : Part → Text → Text → Prop where
  | empty {s : Text} : Derives .pattern s s
  | more {s t u : Text} (h : Derives .run s t) (hs : Derives .pattern t u) : Derives .pattern s u
  | plain {s t : Text} (h : Derives .atoms s t) : Derives .run s t
  | repeated {s t v : Text} {r : Repetition} (h : Derives .atoms s (v ++ t)) (hv : r.Written v) :
    Derives .run s t
  | single {s t : Text} (h : Derives .atom s t) : Derives .atoms s t
  | barred {s t u : Text} (h : Derives .atom s ('|' :: t)) (hs : Derives .atoms t u) :
    Derives .atoms s u
  | anyChar {t : Text} : Derives .atom ('.' :: t) t
  | escape {t : Text} : Derives .atom ('\\' :: t) t
  | verbatim {v t : Text} (hne : v ≠ []) (hv : ∀ c ∈ v, c ∉ significant) : Derives .atom (v ++ t) t
  | group {s t : Text} {nonCapturing : Bool} {name : Option Text} (hname : ∀ w ∈ name, IsName w)
      (h : Derives .pattern s (')' :: t)) :
    Derives .atom ('(' :: groupHeader nonCapturing name ++ s) t
  | charList {s t : Text} (h : ListReaches s t) : Derives .atom ('[' :: s) t

theorem behindItem_of_not_opensRange {s : Text} {c : Char} (h : ¬ Text.OpensRange (c :: s)) :
    behindItem (c :: s) = if c = ']' then none else some s := by
  unfold behindItem
  split
  next a b t hs => exact absurd ⟨a, b, t, hs⟩ h
  next hs => cases hs; rfl
  next hs => cases hs

theorem behindItem_single {c d : Char} (hc : c ≠ ']') (hd : d ≠ '-') (v : Text) :
    behindItem (c :: d :: v) = some (d :: v) := by
  rw [behindItem_of_not_opensRange (Text.not_opensRange_of_head? (by simpa using hd)), if_neg hc]

theorem behindItem_bracket {w : Text} (hw : ¬ Text.OpensRange (']' :: w)) :
    behindItem (']' :: w) = none := by
  rw [behindItem_of_not_opensRange hw, if_pos rfl]

theorem Scans.of_some {r u w : Text} (h : Scans r w) (hu : behindItem r = some u) : Scans u w := by
  cases h with
  | stop hno => rw [hno] at hu; cases hu
  | item hsome hs => rw [hsome] at hu; exact Option.some.inj hu ▸ hs

theorem Scans.of_none {r w : Text} (h : Scans r w) (hno : behindItem r = none) : r = w := by
  cases h with
  | stop => rfl
  | item hsome => rw [hno] at hsome; cases hsome

theorem behindItem_of_spelled {i : Item} {s t : Place} (h : i.Spelled s t) :
    behindItem s.rest = some t.rest := by
  cases h with
  | range h => rw [h.rest]; rfl
  | single h hc hs =>
    simp only [h.rest, List.cons_append, List.nil_append] at hs ⊢
    rw [behindItem_of_not_opensRange hs, if_neg hc]

theorem scans_of_spelledAll {is : List Item} {s t : Place} (h : Item.SpelledAll is s t)
    (hend : behindItem t.rest = none) : Scans s.rest t.rest := by
  induction h with
  | nil => exact .stop hend
  | cons h _ ih => exact .item (behindItem_of_spelled h) (ih hend)

theorem behindCaret_opening {negated : Bool} {r : Text}
    (hr : negated = false → r.head? ≠ some '^') :
    ∃ u, opening negated ++ r = '[' :: u ∧ behindCaret u = r := by
  cases negated with
  | true => exact ⟨'^' :: r, rfl, rfl⟩
  | false =>
    refine ⟨r, rfl, ?_⟩
    unfold behindCaret
    split
    next => exact absurd rfl (hr rfl)
    next => rfl

theorem listReaches_of_spelledAll {is : List Item} {negated : Bool} {u : Text} {a b t : Place}
    (hopen : opening negated ++ a.rest = '[' :: u)
    (hcaret : negated = false → a.rest.head? ≠ some '^') (hne : is ≠ [])
    (his : Item.SpelledAll is a b) (hrange : ¬ b.rest.OpensRange) (hb : b.Reads [']'] t) :
    ListReaches u t.rest := by
  obtain ⟨w, hw, hcaret⟩ := behindCaret_opening hcaret
  obtain rfl : u = w := by simpa using hopen.symm.trans hw
  have hclose : b.rest = ']' :: t.rest := hb.rest
  have hend : behindItem b.rest = none := by
    rw [hclose] at hrange ⊢
    exact behindItem_bracket hrange
  rw [ListReaches, hcaret]
  refine ⟨?_, hclose ▸ scans_of_spelledAll his hend⟩
  cases his with
  | nil => exact absurd rfl hne
  | cons hi _ => simp [behindItem_of_spelled hi]

end Grammar

namespace Node

open Grammar

mutual

theorem Spelled.derives : ∀ {n s t}, Spelled n s t →
    (n.IsAtom → Derives .atom s.rest t.rest) ∧ (¬ n.IsQuantifier → Derives .atoms s.rest t.rest)
  | _, s, t, .verbatim hne h hplain _ => by
    have hatom : Derives .atom s.rest t.rest := h.rest ▸ .verbatim hne hplain
    exact ⟨fun _ => hatom, fun _ => .single hatom⟩
  | _, s, t, .anyChar h => by
    have hatom : Derives .atom s.rest t.rest := h.rest ▸ .anyChar
    exact ⟨fun _ => hatom, fun _ => .single hatom⟩
  | _, s, t, .escape h => by
    have hatom : Derives .atom s.rest t.rest := h.rest ▸ .escape
    exact ⟨fun _ => hatom, fun _ => .single hatom⟩
  | _, s, t, .charList ha hcaret hne his hrange hb => by
    obtain ⟨u, hu, -⟩ := behindCaret_opening hcaret
    have hatom : Derives .atom s.rest t.rest := by
      rw [ha.rest, hu]
      exact .charList (listReaches_of_spelledAll hu hcaret hne his hrange hb)
    exact ⟨fun _ => hatom, fun _ => .single hatom⟩
  | _, _, _, .quantifier .. => ⟨fun h => h.elim, fun h => absurd trivial h⟩
  | _, s, t, .group ha hname hcs hb => by
    have hinside := hcs.derives
    rw [hb.rest] at hinside
    have hatom : Derives .atom s.rest t.rest := ha.rest ▸ .group hname hinside
    exact ⟨fun _ => hatom, fun _ => .single hatom⟩
  | _, _, _, .alternation _ hbs => ⟨fun h => h.elim, fun _ => hbs.derives⟩

theorem SpelledAll.derives : ∀ {ns s t}, SpelledAll ns s t → Derives .pattern s.rest t.rest
  | _, _, _, .nil => .empty
  | _, _, _, .cons hn h hns => .more (.plain (h.derives.2 hn)) hns.derives
  | _, _, _, .repeated hn h (.quantifier hw hq _) hns => by
    have hatoms := h.derives.2 hn
    rw [hq.rest] at hatoms
    exact .more (.repeated hatoms hw) hns.derives

theorem SpelledBarred.derives : ∀ {bs s t}, SpelledBarred bs s t → Derives .atoms s.rest t.rest
  | _, _, _, .last hn h => .single (h.derives.1 hn)
  | _, _, _, .cons hn h hbar hbs => by
    have hatom := h.derives.1 hn
    rw [hbar.rest] at hatom
    exact .barred hatom hbs.derives

end

end Node

end PatternAnatomy
