import PatternAnatomy.Proofs.Grammar.Spelling

namespace PatternAnatomy.Node

mutual

/-- The node itself and the nodes inside it, each before those inside it. -/
def subnodes : Node → List Node
  | verbatim v s => [verbatim v s]
  | special k s => [special k s]
  | charList is negated s => [charList is negated s]
  | quantifier r s => [quantifier r s]
  | group cs nonCapturing name s => group cs nonCapturing name s :: subnodesAll cs
  | alternation bs s => alternation bs s :: subnodesAll bs

def subnodesAll : List Node → List Node
  | [] => []
  | n :: ns => n.subnodes ++ subnodesAll ns

end

theorem subnodes_eq (n : Node) : n.subnodes = n :: subnodesAll n.children := by
  cases n <;> rfl

theorem mem_subnodesAll_cons {m n : Node} {ns : List Node} :
    m ∈ subnodesAll (n :: ns) ↔ m = n ∨ m ∈ subnodesAll n.children ∨ m ∈ subnodesAll ns := by
  simp [subnodesAll, subnodes_eq]

def SpelledWithin (m : Node) (s t : Place) : Prop :=
  ∃ a b, s.Before a ∧ m.Spelled a b ∧ b.Before t

variable {m : Node} {s s' t t' : Place}

theorem SpelledWithin.widen (h : m.SpelledWithin s t) (hs : s'.Before s) (ht : t.Before t') :
    m.SpelledWithin s' t' := by
  obtain ⟨a, b, ha, hm, hb⟩ := h
  exact ⟨a, b, hs.trans ha, hm, hb.trans ht⟩

mutual

theorem Spelled.within_children : ∀ {n s t}, Spelled n s t → m ∈ subnodesAll n.children →
    m.SpelledWithin s t
  | _, _, _, .verbatim .., hm | _, _, _, .anyChar .., hm | _, _, _, .escape .., hm
  | _, _, _, .charList .., hm | _, _, _, .quantifier .., hm => by simp [children, subnodesAll] at hm
  | _, _, _, .group ha _ hcs hb, hm => (hcs.within hm).widen ha.before hb.before
  | _, _, _, .alternation _ hbs, hm => hbs.within hm

theorem SpelledAll.within : ∀ {ns s t}, SpelledAll ns s t → m ∈ subnodesAll ns →
    m.SpelledWithin s t
  | _, _, _, .nil, hm => by simp [subnodesAll] at hm
  | _, _, _, .cons _ h hns, hm => by
    rcases mem_subnodesAll_cons.1 hm with rfl | hm | hm
    · exact ⟨_, _, .refl _, h, hns.before⟩
    · exact (h.within_children hm).widen (.refl _) hns.before
    · exact (hns.within hm).widen h.before (.refl _)
  | _, _, _, .repeated _ h hq hns, hm => by
    rcases mem_subnodesAll_cons.1 hm with rfl | hm | hm
    · exact ⟨_, _, .refl _, h, hq.before.trans hns.before⟩
    · exact (h.within_children hm).widen (.refl _) (hq.before.trans hns.before)
    · rcases mem_subnodesAll_cons.1 hm with rfl | hm | hm
      · exact ⟨_, _, h.before, hq, hns.before⟩
      · simp [children, subnodesAll] at hm
      · exact (hns.within hm).widen (h.before.trans hq.before) (.refl _)

theorem SpelledBarred.within : ∀ {bs s t}, SpelledBarred bs s t → m ∈ subnodesAll bs →
    m.SpelledWithin s t
  | _, _, _, .last _ h, hm => by
    rcases mem_subnodesAll_cons.1 hm with rfl | hm | hm
    · exact ⟨_, _, .refl _, h, .refl _⟩
    · exact h.within_children hm
    · simp [subnodesAll] at hm
  | _, _, _, .cons _ h hbar hbs, hm => by
    have hrest := hbar.before.trans hbs.before
    rcases mem_subnodesAll_cons.1 hm with rfl | hm | hm
    · exact ⟨_, _, .refl _, h, hrest⟩
    · exact (h.within_children hm).widen (.refl _) hrest
    · exact (hbs.within hm).widen (h.before.trans hbar.before) (.refl _)

end

/-- Every node at any depth of a tree that is read from a pattern is spelled somewhere in it. -/
theorem spelledWithin_of_parse {p : Text} {nodes : List Node} (h : parse p = .ok nodes)
    (hm : m ∈ subnodesAll nodes) : m.SpelledWithin (.start p) ⟨p.length, []⟩ :=
  (spelledAll_of_parse h).within hm

end PatternAnatomy.Node
