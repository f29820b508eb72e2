import Mathlib.Data.List.Induction
import PatternAnatomy.Proofs.Node.Subnodes

namespace PatternAnatomy

open Grammar

theorem Repetition.Written.lazy {r : Repetition} {v : Text} (h : r.Written v)
    (hlazy : r.lazy = true) : (r.min = 0 ∨ r.min = 1) ∧ r.max = none := by
  cases h with
  | lazyStar => exact ⟨.inl rfl, rfl⟩
  | lazyPlus => exact ⟨.inr rfl, rfl⟩
  | plus | star | once | braces => cases hlazy

theorem Item.SpelledAll.ne_of_single_mem {is : List Item} {s t : Place} (h : SpelledAll is s t)
    {c : Char} {sp : Span} (hc : .single c sp ∈ is) : c ≠ ']' := by
  induction h with
  | nil => cases hc
  | cons h _ ih =>
    rcases List.mem_cons.1 hc with rfl | hc
    · cases h with
      | single _ hne _ => exact hne
    · exact ih hc

namespace Node

def IsVerbatim : Node → Prop
  | verbatim .. => True
  | _ => False

/-- Neither two quantifiers nor two runs stand side by side. -/
def Neighbours (m n : Node) : Prop :=
  ¬ (m.IsQuantifier ∧ n.IsQuantifier) ∧ ¬ (m.IsVerbatim ∧ n.IsVerbatim)

/-- The nodes of a pattern in a row, of which no quantifier is the first. -/
structure InRow (ns : List Node) : Prop where
  head : ∀ n, ns.head? = some n → ¬ n.IsQuantifier
  neighbours : ns.IsChain Neighbours

/-- The node is of a form that a pattern can give it, whatever form the nodes inside it have. -/
def IsNormal : Node → Prop
  | verbatim v _ => v ≠ [] ∧ ∀ c ∈ v, c ∉ significant
  | special k _ => k = .anyChar ∨ k = .escape
  | charList is _ _ => is ≠ [] ∧ ∀ c s, .single c s ∈ is → c ≠ ']'
  | quantifier r _ => r.lazy = true → (r.min = 0 ∨ r.min = 1) ∧ r.max = none
  | group cs _ name _ => InRow cs ∧ ∀ w, name = some w → w ≠ [] ∧ '>' ∉ w
  | alternation bs _ => 2 ≤ bs.length ∧ ∀ b ∈ bs, ¬ b.IsQuantifier ∧ ∀ cs s, b ≠ .alternation cs s

variable {m n : Node} {ns bs : List Node} {s t u : Place}

theorem Spelled.not_isVerbatim_both (hm : m.Spelled s t) (hn : n.Spelled t u) :
    ¬ (m.IsVerbatim ∧ n.IsVerbatim) := by
  rintro ⟨hm', hn'⟩
  cases hm with
  | verbatim _ _ _ hend =>
    cases hn with
    | verbatim hne h hplain =>
      obtain ⟨c, w, rfl⟩ := List.exists_cons_of_ne_nil hne
      exact hplain c List.mem_cons_self (hend c (h.head? hne))
    | anyChar | escape | charList | quantifier | group | alternation => exact hn'
  | anyChar | escape | charList | quantifier | group | alternation => exact hm'

theorem SpelledAll.head (h : SpelledAll (n :: ns) s t) :
    ¬ n.IsQuantifier ∧ ∃ u, n.Spelled s u := by
  cases h with
  | cons hn h | repeated hn h => exact ⟨hn, _, h⟩

/-- A node that ends where other nodes begin is a neighbour of the first of them, which is no
quantifier. -/
theorem Spelled.isChain_cons (h : n.Spelled s t) (hns : SpelledAll ns t u)
    (hchain : ns.IsChain Neighbours) : (n :: ns).IsChain Neighbours := by
  cases ns with
  | nil => exact .singleton n
  | cons m ns =>
    obtain ⟨hm, v, hv⟩ := hns.head
    exact .cons_cons ⟨fun hq => hm hq.2, h.not_isVerbatim_both hv⟩ hchain

theorem SpelledAll.isChain (h : SpelledAll ns s t) : ns.IsChain Neighbours := by
  induction ns using List.twoStepInduction generalizing s with
  | nil => exact .nil
  | singleton n => exact .singleton n
  | cons_cons n q ns ih ihq =>
    cases h with
    | cons hn h hns => exact h.isChain_cons hns (ihq q hns)
    | repeated hn h hq hns =>
      exact .cons_cons ⟨fun hboth => hn hboth.1, fun hboth => hboth.2⟩
        (hq.isChain_cons hns (ih hns))

theorem SpelledAll.inRow (h : SpelledAll ns s t) : InRow ns := by
  refine ⟨?_, h.isChain⟩
  intro n hn
  obtain ⟨ms, rfl⟩ := List.head?_eq_some_iff.1 hn
  exact h.head.1

theorem SpelledBarred.isAtom (h : SpelledBarred bs s t) : ∀ b ∈ bs, b.IsAtom := by
  induction bs generalizing s with
  | nil => simp
  | cons b bs ih =>
    cases h with
    | last hb _ => simpa using hb
    | cons hb _ _ hbs => exact List.forall_mem_cons.2 ⟨hb, ih hbs⟩

theorem IsAtom.ne_alternation (h : n.IsAtom) (cs : List Node) (sp : Span) :
    n ≠ .alternation cs sp := by
  rintro rfl
  exact h

theorem Spelled.isNormal (h : n.Spelled s t) : n.IsNormal := by
  cases h with
  | verbatim hne _ hplain => exact ⟨hne, hplain⟩
  | anyChar => exact .inl rfl
  | escape => exact .inr rfl
  | charList _ _ hne his => exact ⟨hne, fun _ _ => his.ne_of_single_mem⟩
  | quantifier hw => exact hw.lazy
  | group _ hname hcs => exact ⟨hcs.inRow, hname⟩
  | alternation hlen hbs =>
    have hatom := hbs.isAtom
    exact ⟨hlen, fun b hb => ⟨(hatom b hb).not_isQuantifier, (hatom b hb).ne_alternation⟩⟩

/-- The nodes that a pattern reads as stand in a row, and they and all nodes inside them have a form
that a pattern can give. -/
theorem normal_of_parse {p : Text} {nodes : List Node} (h : parse p = .ok nodes) :
    InRow nodes ∧ ∀ n ∈ subnodesAll nodes, n.IsNormal := by
  refine ⟨(spelledAll_of_parse h).inRow, fun n hn => ?_⟩
  obtain ⟨_, _, -, hn, -⟩ := spelledWithin_of_parse h hn
  exact hn.isNormal

theorem normal_of_parse_branches_in_group :
    ∃ nodes, parse "(?<y>a|[]-xb]c)+?\\d".toList = .ok nodes ∧
      InRow nodes ∧ ∀ n ∈ subnodesAll nodes, n.IsNormal := by
  have h : parse "(?<y>a|[]-xb]c)+?\\d".toList = .ok [
      .group [.alternation [.verbatim ['a'] ⟨5, 1⟩,
        .charList [.range ']' 'x' ⟨8, 3⟩, .single 'b' ⟨11, 1⟩] false ⟨7, 6⟩] ⟨5, 8⟩,
        .verbatim ['c'] ⟨13, 1⟩] false (some ['y']) ⟨0, 15⟩,
      .quantifier ⟨1, none, true⟩ ⟨15, 2⟩, .special .escape ⟨17, 1⟩,
      .verbatim ['d'] ⟨18, 1⟩] := by
    decide +kernel
  exact ⟨_, h, normal_of_parse h⟩

end Node

end PatternAnatomy
