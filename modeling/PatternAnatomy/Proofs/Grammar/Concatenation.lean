import PatternAnatomy.Proofs.Grammar.Beginning
import PatternAnatomy.Proofs.Grammar.Rereading
import PatternAnatomy.Proofs.Node.Subnodes

namespace PatternAnatomy

open Grammar

variable {p q r u : Text} {m : Stage} {n : Node} {s t : Place}

theorem Place.Before.rest_append (h : (Place.start p).Before s) :
    s.rest ++ q = (p ++ q).drop s.offset := by
  obtain ⟨v, hv⟩ := h
  have hp : p = v ++ s.rest := hv.rest
  have ho : s.offset = v.length := by simpa [Place.start] using hv.offset
  rw [ho, hp, List.append_assoc, List.drop_left]

namespace Node

/-- Whether a character list goes on behind its span in the text `x`, where a range begins with the
bracket that closed it. -/
def RunsOn (x : Text) : Node → Prop
  | charList _ _ s => x[s.stop]? = some '-' ∧ s.stop + 1 < x.length
  | _ => False

theorem runsOn_charList {x : Text} {is : List Item} {negated : Bool} {s : Span} :
    (charList is negated s).RunsOn x ↔ Text.OpensRange (']' :: x.drop s.stop) := by
  have hlength : s.stop + 1 < x.length ↔ 1 < (x.drop s.stop).length := by
    rw [List.length_drop]
    omega
  rw [Text.opensRange_cons, RunsOn, ← List.head?_drop, hlength]
  generalize x.drop s.stop = y
  rcases y with _ | ⟨d, _ | ⟨b, y⟩⟩ <;> simp

theorem Spelled.runsOn_charList {is : List Item} {negated : Bool} {sp : Span}
    (h : (Node.charList is negated sp).Spelled s t) (hs : (Place.start p).Before s) :
    (Node.charList is negated sp).RunsOn (p ++ q) ↔ Text.OpensRange (']' :: (t.rest ++ q)) := by
  have hstop : sp.stop = t.offset := h.stop_span
  rw [Node.runsOn_charList, hstop, (hs.trans h.before).rest_append]

/-- Whether the text `x` can be read from where a list begins, if the list goes on in it. -/
def Resumes (x : Text) (n : Node) : Prop := n.RunsOn x → Completes .ready (x.drop n.span.offset) []

theorem Spelled.completes_append_charList {is : List Item} {negated : Bool} {sp : Span}
    (h : (Node.charList is negated sp).Spelled s t) (hs : (Place.start p).Before s)
    (hlist : (Node.charList is negated sp).Resumes (p ++ q))
    (ht : Completes .filled (t.rest ++ q) []) : Completes .barred (s.rest ++ q) [] := by
  by_cases hruns : (Node.charList is negated sp).RunsOn (p ++ q)
  · -- Nothing that was read of the list helps here; the text is read anew from its bracket.
    have hresumed := hlist hruns
    obtain ⟨c, hc, hopens⟩ := h.opensAtom id
    rw [h.offset_span, ← hs.rest_append] at hresumed
    exact hresumed.barred_of_opensAtom (by simp [hc]) hopens
  · rw [h.runsOn_charList hs] at hruns
    cases h with
    | charList ha hcaret hne his _ hb =>
      obtain ⟨x, hx⟩ := his.before
      have hlist := completes_of_charList (m := .barred) hne hcaret his hx hb.rest hruns ht
      rw [ha.rest, hx.rest, hb.rest]
      simpa using hlist

mutual

theorem Spelled.completes_append : ∀ {n s t}, Spelled n s t → (Place.start p).Before s →
    (∀ m ∈ n.subnodes, m.Resumes (p ++ q)) → ¬ n.IsQuantifier →
      Completes .filled (t.rest ++ q) [] → Completes .barred (s.rest ++ q) []
  | _, _, _, .verbatim hne h hplain _, _, _, _, ht => by
    rw [h.rest, List.append_assoc]
    exact ht.verbatim hplain hne
  | _, _, _, .anyChar h, _, _, _, ht => by
    rw [h.rest]
    exact .character (.inl rfl) ht
  | _, _, _, .escape h, _, _, _, ht => by
    rw [h.rest]
    exact .character (.inr (.inl rfl)) ht
  | _, _, _, .charList ha hcaret hne his hrange hb, hs, hlists, _, ht =>
    (Spelled.charList ha hcaret hne his hrange hb).completes_append_charList hs
      (hlists _ (by simp [subnodes])) ht
  | _, _, _, .quantifier .., _, _, hn, _ => absurd trivial hn
  | _, _, _, .group ha hname hcs hb, _, _, _, ht => by
    -- The bracket that closes the group keeps what is behind it out of sight.
    obtain ⟨x, hx⟩ := hcs.before
    rw [ha.rest, hx.rest, hb.rest, List.append_assoc, List.append_assoc]
    exact completes_of_group hname hcs hx hb.rest ht
  | _, _, _, .alternation _ hbs, hs, hlists, _, ht =>
    hbs.completes_append hs (List.forall_mem_cons.1 hlists).2 ht

theorem SpelledAll.completes_append : ∀ {ns s t}, SpelledAll ns s t → (Place.start p).Before s →
    (∀ m ∈ subnodesAll ns, m.Resumes (p ++ q)) → Completes .ready (t.rest ++ q) [] →
      Completes .ready (s.rest ++ q) []
  | _, _, _, .nil, _, _, ht => ht
  | _, _, _, .cons hn h hns, hs, hlists, ht => by
    obtain ⟨hinside, hbehind⟩ := List.forall_mem_append.1 hlists
    have hrest := hns.completes_append (hs.trans h.before) hbehind ht
    exact (h.completes_append hs hinside hn hrest.filled_of_ready).of_barred
  | _, _, _, .repeated hn h (.quantifier hw hr hend) hns, hs, hlists, ht => by
    obtain ⟨hinside, hbehind⟩ := List.forall_mem_append.1 hlists
    have hrest := hns.completes_append ((hs.trans h.before).trans hr.before)
      (List.forall_mem_cons.1 hbehind).2 ht
    have hfilled := hrest.quantifier hw
    rw [← List.append_assoc, ← hr.rest] at hfilled
    exact (h.completes_append hs hinside hn hfilled).of_barred

theorem SpelledBarred.completes_append : ∀ {bs s t}, SpelledBarred bs s t →
    (Place.start p).Before s → (∀ m ∈ subnodesAll bs, m.Resumes (p ++ q)) →
      Completes .filled (t.rest ++ q) [] → Completes .barred (s.rest ++ q) []
  | _, _, _, .last hn h, hs, hlists, ht =>
    h.completes_append hs (List.forall_mem_append.1 hlists).1 hn.not_isQuantifier ht
  | _, _, _, .cons (t := a) hn h hbar hbs, hs, hlists, ht => by
    obtain ⟨hinside, hbehind⟩ := List.forall_mem_append.1 hlists
    have hrest := hbs.completes_append ((hs.trans h.before).trans hbar.before) hbehind ht
    have hfilled : Completes .filled (a.rest ++ q) [] := by
      rw [hbar.rest]
      exact .bar hrest
    exact h.completes_append hs hinside hn.not_isQuantifier hfilled

end

theorem Spelled.completes_behind (h : n.Spelled s t) (hn : ¬ n.IsQuantifier)
    (ht : t.rest.head? ≠ some '|') (hc : Completes .ready s.rest u) : Completes .filled t.rest u :=
  (completes_of_quantifiable (lossless_patternWithin _) (Nat.le_refl _)
    ((h.accepts _ (Nat.le_refl _)).2 hn ht) hc).1

theorem Spelled.completes_behind_single {c : Char} (h : n.Spelled s t) (hn : ¬ n.IsQuantifier)
    (ht : t.rest.head? = some c) (hopens : OpensAtom c) (hc : Completes .ready s.rest u) :
    Completes .ready t.rest u := by
  have hbar : t.rest.head? ≠ some '|' := by
    rw [ht]
    rintro ⟨⟩
    exact hopens.ne (by decide) (by decide) rfl
  exact ((h.completes_behind hn hbar hc).barred_of_opensAtom ht hopens).of_barred

theorem Spelled.completes_behind_repeated {x : Repetition} {sp : Span} {a : Place}
    (h : n.Spelled s a) (hn : ¬ n.IsQuantifier) (hq : (Node.quantifier x sp).Spelled a t)
    (hc : Completes .ready s.rest u) : Completes .ready t.rest u := by
  cases hq with
  | quantifier hw hr hend =>
    have hbar : a.rest.head? ≠ some '|' := by
      obtain ⟨c, hc, -, hno⟩ := hw.head?
      rw [hr.head? hw.ne_nil, hc]
      rintro ⟨⟩
      exact hno (by simp)
    have hq := accepts_quantifier.2 ⟨_, _, hw, hr, hend, rfl⟩
    exact completes_of_optional_quantifier (Reader.accepts_optional.2 (.inl ⟨_, rfl, hq⟩)) hbar
      (h.completes_behind hn hbar hc)

/-- With enough of its own text behind it, a node is spelled in the same way in front of more. -/
theorem Spelled.append (h : n.Spelled s t) (ht : 2 ≤ t.rest.length) :
    n.Spelled ⟨s.offset, s.rest ++ q⟩ ⟨t.offset, t.rest ++ q⟩ := by
  obtain ⟨v, -, hv⟩ := h.reads
  have hr : Text.Replaces (t.rest ++ q) t.rest := by
    simpa using Text.replaces_append ht q []
  obtain ⟨n', hn', hspelled⟩ := h.spliced hr (Nat.zero_le _) (List.suffix_refl _)
  have hs : s.spliced 0 t.rest (t.rest ++ q) = ⟨s.offset, s.rest ++ q⟩ := by
    apply Place.Reads.eq_of_eq
    · rw [Place.rest_spliced hv.rest, hv.rest, List.append_assoc]
    · exact Nat.sub_zero _
  have ht : t.spliced 0 t.rest (t.rest ++ q) = ⟨t.offset, t.rest ++ q⟩ := by
    apply Place.Reads.eq_of_eq
    · exact Place.rest_spliced (v := []) rfl
    · exact Nat.sub_zero _
  rw [moved_zero] at hn'
  rwa [hn', ← hs, ← ht]

theorem Spelled.not_runsOn {cs : List Node} {nonCapturing : Bool} {name : Option Text} {sp : Span}
    (h : (Node.group cs nonCapturing name sp).Spelled s t) (hs : (Place.start p).Before s)
    (hn : n ∈ subnodesAll cs) : ¬ n.RunsOn (p ++ q) := by
  cases h with
  | group ha _ hcs hb =>
    obtain ⟨a, b, hbefore, hspelled, hbehind⟩ := hcs.within hn
    cases n with
    | charList is negated sp =>
      obtain ⟨v, hv⟩ := hbehind
      rw [hspelled.runsOn_charList ((hs.trans ha.before).trans hbefore), hv.rest, hb.rest]
      cases hspelled with
      | charList _ _ _ _ hrange hclose =>
        rw [hclose.rest, hv.rest, hb.rest] at hrange
        rw [List.append_assoc]
        exact not_opensRange_append hrange (by simp) (by simp)
    | _ => exact id

theorem SpelledWithin.two_le_length {x : Text} (h : n.SpelledWithin s t) (hn : n.RunsOn x) :
    2 ≤ s.rest.length := by
  obtain ⟨a, b, hbefore, hspelled, -⟩ := h
  cases hspelled with
  | charList ha _ _ his _ hb =>
    have hle := hbefore.length_le
    have hopen := ha.length
    have hitems := his.before.length_le
    have hclose := hb.length
    rw [length_opening] at hopen
    rw [List.length_singleton] at hclose
    omega
  | _ => exact hn.elim

theorem SpelledAll.opensAtom {ns : List Node} (h : SpelledAll ns s t) (hn : n ∈ subnodesAll ns) :
    ∃ c, s.rest.head? = some c ∧ OpensAtom c := by
  cases h with
  | nil => simp [subnodesAll] at hn
  | cons hm h | repeated hm h => exact h.opensAtom hm

mutual

theorem Spelled.completes_at : ∀ {m s t}, Spelled m s t → (Place.start p).Before s →
    n = m ∨ n ∈ subnodesAll m.children → n.RunsOn (p ++ q) → Completes .barred (s.rest ++ q) [] →
      Completes .ready ((p ++ q).drop n.span.offset) []
  | _, _, _, h, hs, .inl hn, _, hc => by
    rw [hn, h.offset_span, ← hs.rest_append]
    exact hc.of_barred
  | _, _, _, .verbatim .., _, .inr hn, _, _ | _, _, _, .anyChar .., _, .inr hn, _, _
  | _, _, _, .escape .., _, .inr hn, _, _ | _, _, _, .charList .., _, .inr hn, _, _
  | _, _, _, .quantifier .., _, .inr hn, _, _ => by simp [children, subnodesAll] at hn
  | _, _, _, .group ha hname hcs hb, hs, .inr hn, hruns, _ =>
    absurd hruns ((Spelled.group ha hname hcs hb).not_runsOn hs hn)
  | _, _, _, .alternation _ hbs, hs, .inr hn, hruns, hc => hbs.completes_at hs hn hruns hc

theorem SpelledAll.completes_at : ∀ {ns s t}, SpelledAll ns s t → (Place.start p).Before s →
    n ∈ subnodesAll ns → n.RunsOn (p ++ q) → Completes .ready (s.rest ++ q) [] →
      Completes .ready ((p ++ q).drop n.span.offset) []
  | _, _, _, .nil, _, hn, _, _ => by simp [subnodesAll] at hn
  | _, _, _, .cons hm h hns, hs, hn, hruns, hc => by
    rcases or_assoc.2 (mem_subnodesAll_cons.1 hn) with hn | hn
    · obtain ⟨c, hhead, hopens⟩ := h.opensAtom hm
      exact h.completes_at hs hn hruns (hc.barred_of_opensAtom (by simp [hhead]) hopens)
    · -- The list is further on: the first node is read as before, for the list is two characters
      -- long at least.
      have hlength := (hns.within hn).two_le_length hruns
      obtain ⟨c, hhead, hopens⟩ := hns.opensAtom hn
      have hready := (h.append (q := q) hlength).completes_behind_single hm
        (by simp [hhead]) hopens hc
      exact hns.completes_at (hs.trans h.before) hn hruns hready
  | _, _, _, .repeated hm h hq hns, hs, hn, hruns, hc => by
    rcases or_assoc.2 (mem_subnodesAll_cons.1 hn) with hn | hn
    · obtain ⟨c, hhead, hopens⟩ := h.opensAtom hm
      exact h.completes_at hs hn hruns (hc.barred_of_opensAtom (by simp [hhead]) hopens)
    · rcases mem_subnodesAll_cons.1 hn with rfl | hn | hn
      · exact hruns.elim
      · simp [children, subnodesAll] at hn
      · have hlength := (hns.within hn).two_le_length hruns
        have hle := hq.before.length_le
        have hready := (h.append (q := q) (by omega)).completes_behind_repeated hm
          (hq.append hlength) hc
        exact hns.completes_at ((hs.trans h.before).trans hq.before) hn hruns hready

theorem SpelledBarred.completes_at : ∀ {bs s t}, SpelledBarred bs s t →
    (Place.start p).Before s → n ∈ subnodesAll bs → n.RunsOn (p ++ q) →
      Completes .barred (s.rest ++ q) [] → Completes .ready ((p ++ q).drop n.span.offset) []
  | _, _, _, .last _ h, hs, hn, hruns, hc => by
    rcases or_assoc.2 (mem_subnodesAll_cons.1 hn) with hn | hn
    · exact h.completes_at hs hn hruns hc
    · simp [subnodesAll] at hn
  | _, _, _, .cons hm h hbar hbs, hs, hn, hruns, hc => by
    rcases or_assoc.2 (mem_subnodesAll_cons.1 hn) with hn | hn
    · exact h.completes_at hs hn hruns hc
    · have hlength := (hbs.within hn).two_le_length hruns
      have hbehind := hbar.length
      have hfilled := (h.append (by omega)).completes_behind_atom hm hc
      rw [hbar.rest] at hfilled
      exact hbs.completes_at ((hs.trans h.before).trans hbar.before) hn hruns hfilled.of_bar

end

end Node

/-- Two patterns one behind the other are a pattern just when, for every list of the first that goes
on in the joined text, the text from that list on is a pattern. -/
theorem exists_parse_append_iff {nodes ms : List Node} (hp : parse p = .ok nodes)
    (hq : parse q = .ok ms) : (∃ ns, parse (p ++ q) = .ok ns) ↔
      ∀ n ∈ Node.subnodesAll nodes, n.RunsOn (p ++ q) →
        ∃ ns, parse ((p ++ q).drop n.span.offset) = .ok ns := by
  have hs := spelledAll_of_parse hp
  have hbehind : Completes .ready q [] := exists_parse_iff_completes.1 ⟨ms, hq⟩
  simp only [exists_parse_iff_completes]
  constructor
  · intro hc n hn hruns
    exact hs.completes_at (.refl _) hn hruns hc
  · intro hlists
    exact hs.completes_append (.refl _) hlists hbehind

theorem exists_parse_append_list_in_branch :
    ∃ nodes ms, parse "a|[b]".toList = .ok nodes ∧ parse "-c]+".toList = .ok ms ∧
      ((∃ ns, parse "a|[b]-c]+".toList = .ok ns) ↔
        ∀ n ∈ Node.subnodesAll nodes, n.RunsOn "a|[b]-c]+".toList →
          ∃ ns, parse ("a|[b]-c]+".toList.drop n.span.offset) = .ok ns) := by
  have hp : parse "a|[b]".toList = .ok [.alternation [.verbatim ['a'] ⟨0, 1⟩,
      .charList [.single 'b' ⟨3, 1⟩] false ⟨2, 3⟩] ⟨0, 5⟩] := by
    decide +kernel
  have hq : parse "-c]+".toList = .ok [.verbatim ['-', 'c', ']'] ⟨0, 3⟩,
      .quantifier ⟨1, none, false⟩ ⟨3, 1⟩] := by
    decide +kernel
  have happend : "a|[b]".toList ++ "-c]+".toList = "a|[b]-c]+".toList := by decide +kernel
  have h := exists_parse_append_iff hp hq
  rw [happend] at h
  exact ⟨_, _, hp, hq, h⟩

/-- The bracket of a list and a dash that begins the next pattern make a range. -/
theorem not_forall_exists_parse_append : ¬ ∀ p q : Text, (∃ nodes, parse p = .ok nodes) →
    (∃ nodes, parse q = .ok nodes) → ∃ nodes, parse (p ++ q) = .ok nodes := by
  intro h
  have hp : parse "[a]".toList = .ok [.charList [.single 'a' ⟨1, 1⟩] false ⟨0, 3⟩] := by
    decide +kernel
  have hq : parse "-x".toList = .ok [.verbatim ['-', 'x'] ⟨0, 2⟩] := by decide +kernel
  obtain ⟨nodes, hnodes⟩ := h _ _ ⟨_, hp⟩ ⟨_, hq⟩
  have herror : (parse ("[a]".toList ++ "-x".toList)).toOption = none := by decide +kernel
  rw [hnodes] at herror
  cases herror

end PatternAnatomy
