import PatternAnatomy.Proofs.Decoration.Coverage
import PatternAnatomy.Proofs.Node.Tiling

namespace PatternAnatomy

namespace Decoration

/-- The kinds of the items of a list, each a single character or the three parts of a range. -/
inductive OfItems : List Kind → Prop where
  | nil : OfItems []
  | character (h : OfItems ks) : OfItems (.literalCharacter :: ks)
  | range (h : OfItems ks) : OfItems (.rangeStart :: .rangeSymbol :: .rangeEnd :: ks)

/-- What stands between square brackets: the items, with or without a negation in front. -/
inductive OfList : List Kind → Prop where
  | plain (h : OfItems ks) : OfList ks
  | negated (h : OfItems ks) : OfList (.characterListNegation :: ks)

/-- Whether a decoration of the kind is neither a bracket nor a part of a list. -/
def Kind.IsFree : Kind → Prop
  | groupStart | groupEnd | openSquareBracket | closeSquareBracket => False
  | characterListNegation | literalCharacter | rangeStart | rangeSymbol | rangeEnd => False
  | _ => True

/-- The decorations are properly bracketed, and `ps` are the brackets that match, in the order in
which they open. -/
inductive Nested : List Decoration → List (Decoration × Decoration) → Prop where
  | nil : Nested [] []
  | free {d : Decoration} (hd : d.kind.IsFree) (h : Nested ds ps) : Nested (d :: ds) ps
  | group {o c : Decoration} (ho : o.kind = .groupStart) (hin : Nested ds ps)
      (hc : c.kind = .groupEnd) (h : Nested es qs) :
    Nested (o :: (ds ++ c :: es)) ((o, c) :: (ps ++ qs))
  | list {o c : Decoration} (ho : o.kind = .openSquareBracket) (hin : OfList (ds.map kind))
      (hc : c.kind = .closeSquareBracket) (h : Nested es qs) :
    Nested (o :: (ds ++ c :: es)) ((o, c) :: qs)

variable {d : Decoration} {ds ds' es r r' : List Decoration}
  {ps ps' qs : List (Decoration × Decoration)} {ks ls : List Kind}

theorem OfItems.append (h : OfItems ks) (h' : OfItems ls) : OfItems (ks ++ ls) := by
  induction h with
  | nil => exact h'
  | character _ ih => exact .character ih
  | range _ ih => exact .range ih

/-- Behind insides that have no closing bracket, the first that closes is the same. -/
theorem append_close_unique {c c' : Decoration} (hds : .closeSquareBracket ∉ ds.map kind)
    (hds' : .closeSquareBracket ∉ ds'.map kind) (hc : c.kind = .closeSquareBracket)
    (hc' : c'.kind = .closeSquareBracket) (heq : ds ++ c :: r = ds' ++ c' :: r') :
    ds = ds' ∧ c = c' ∧ r = r' := by
  induction ds generalizing ds' with
  | nil =>
    cases ds' with
    | nil => exact ⟨rfl, List.cons.inj heq⟩
    | cons d ds' =>
      rw [(List.cons.inj heq).1] at hc
      simp [hc] at hds'
  | cons d ds ih =>
    cases ds' with
    | nil =>
      rw [← (List.cons.inj heq).1] at hc'
      simp [hc'] at hds
    | cons d' ds' =>
      obtain ⟨hd, htail⟩ := List.cons.inj heq
      obtain ⟨hds, hrest⟩ := ih (by simp_all) (by simp_all) htail
      exact ⟨by rw [hd, hds], hrest⟩

theorem OfList.not_mem {k : Kind} (h : OfList ks)
    (hk : k ∉ [.characterListNegation, .literalCharacter, .rangeStart, .rangeSymbol, .rangeEnd]) :
    k ∉ ks := by
  have hitems : ∀ {ks}, OfItems ks → k ∉ ks := by
    intro ks h
    induction h with
    | nil => exact List.not_mem_nil
    | character _ ih | range _ ih => simp_all
  cases h with
  | plain h => exact hitems h
  | negated h =>
    have hno := hitems h
    simp_all

/-- What comes first belongs to the decorations in front of a bracket that closes, unless it is that
bracket. -/
theorem exists_cons_of_append_eq (hd : d.kind ≠ .groupEnd) (heq : d :: ds ++ r = ds' ++ r')
    (hr' : ∀ e, r'.head? = some e → e.kind = .groupEnd) :
    ∃ es, ds' = d :: es ∧ ds ++ r = es ++ r' := by
  cases ds' with
  | nil => exact absurd (hr' d (congrArg List.head? heq.symm)) hd
  | cons e es =>
    obtain ⟨rfl, hrest⟩ := List.cons.inj heq
    exact ⟨es, rfl, hrest⟩

namespace Nested

theorem append (h : Nested ds ps) (h' : Nested es qs) : Nested (ds ++ es) (ps ++ qs) := by
  induction h with
  | nil => exact h'
  | free hd _ ih => exact .free hd ih
  | group ho hin hc _ _ ih =>
    rw [List.cons_append, List.append_assoc, List.cons_append, List.cons_append, List.append_assoc]
    exact .group ho hin hc ih
  | list ho hin hc _ ih =>
    rw [List.cons_append, List.append_assoc, List.cons_append, List.cons_append]
    exact .list ho hin hc ih

theorem single (hd : d.kind.IsFree) : Nested [d] [] := .free hd .nil

/-- The brackets that open stand among the decorations in the order of their pairs. -/
theorem sublist (h : Nested ds ps) : (ps.map Prod.fst).Sublist ds := by
  induction h with
  | nil => exact .slnil
  | free _ _ ih => exact ih.cons _
  | group _ _ _ _ ih ih' =>
    rw [List.map_cons, List.map_append]
    exact (ih.append (ih'.cons _)).cons_cons _
  | list _ _ _ _ ih =>
    rw [List.map_cons]
    exact ((ih.cons _).trans (List.sublist_append_right _ _)).cons_cons _

theorem head_ne (h : Nested (d :: ds) ps) : d.kind ≠ .groupEnd := by
  cases h with
  | free hd =>
    intro hk
    rwa [hk] at hd
  | group ho | list ho => simp [ho]

theorem of_free (hd : d.kind.IsFree) (h : Nested (d :: ds) ps) : Nested ds ps := by
  cases h with
  | free _ h => exact h
  | group ho | list ho =>
    rw [ho] at hd
    exact hd.elim

theorem of_group (hd : d.kind = .groupStart) (h : Nested (d :: ds) ps) :
    ∃ as c bs qs rs, ds = as ++ c :: bs ∧ ps = (d, c) :: (qs ++ rs) ∧
      Nested as qs ∧ c.kind = .groupEnd ∧ Nested bs rs := by
  cases h with
  | free hfree =>
    rw [hd] at hfree
    exact hfree.elim
  | group _ hin hc h => exact ⟨_, _, _, _, _, rfl, rfl, hin, hc, h⟩
  | list ho =>
    rw [hd] at ho
    cases ho

theorem of_list (hd : d.kind = .openSquareBracket) (h : Nested (d :: ds) ps) :
    ∃ as c bs qs, ds = as ++ c :: bs ∧ ps = (d, c) :: qs ∧
      OfList (as.map kind) ∧ c.kind = .closeSquareBracket ∧ Nested bs qs := by
  cases h with
  | free hfree =>
    rw [hd] at hfree
    exact hfree.elim
  | group ho =>
    rw [hd] at ho
    cases ho
  | list _ hin hc h => exact ⟨_, _, _, _, rfl, rfl, hin, hc, h⟩

/-- Up to a bracket that closes around them, decorations are bracketed in one way only. -/
theorem append_unique (h : Nested ds ps) (h' : Nested ds' ps') (heq : ds ++ r = ds' ++ r')
    (hr : ∀ d, r.head? = some d → d.kind = .groupEnd)
    (hr' : ∀ d, r'.head? = some d → d.kind = .groupEnd) : ds = ds' ∧ ps = ps' := by
  induction h generalizing ds' ps' r r' with
  | nil =>
    cases ds' with
    | nil =>
      cases h'
      exact ⟨rfl, rfl⟩
    | cons d ds' => exact absurd (hr d (congrArg List.head? heq)) h'.head_ne
  | free hd h ih =>
    obtain ⟨es, rfl, hrest⟩ := exists_cons_of_append_eq (h.free hd).head_ne heq hr'
    obtain ⟨rfl, rfl⟩ := ih (h'.of_free hd) hrest hr hr'
    exact ⟨rfl, rfl⟩
  | group ho _ hc _ ih ih' =>
    obtain ⟨_, rfl, hrest⟩ := exists_cons_of_append_eq (by simp [ho]) heq hr'
    obtain ⟨as, c', bs, qs, rs, rfl, rfl, hin, hc', hbehind⟩ := h'.of_group ho
    rw [List.append_assoc, List.append_assoc] at hrest
    -- The brackets that close are the first behind insides that agree, and so agree themselves.
    obtain ⟨rfl, rfl⟩ := ih hin hrest (by simpa using hc) (by simpa using hc')
    obtain ⟨rfl, htail⟩ := List.cons.inj (List.append_cancel_left hrest)
    obtain ⟨rfl, rfl⟩ := ih' hbehind htail hr hr'
    exact ⟨rfl, rfl⟩
  | list ho hin hc _ ih =>
    obtain ⟨_, rfl, hrest⟩ := exists_cons_of_append_eq (by simp [ho]) heq hr'
    obtain ⟨as, c', bs, qs, rfl, rfl, hin', hc', hbehind⟩ := h'.of_list ho
    rw [List.append_assoc, List.append_assoc] at hrest
    obtain ⟨rfl, rfl, htail⟩ := append_close_unique (hin.not_mem (by decide))
      (hin'.not_mem (by decide)) hc hc' hrest
    obtain ⟨rfl, rfl⟩ := ih hbehind htail hr hr'
    exact ⟨rfl, rfl⟩

theorem unique (h : Nested ds ps) (h' : Nested ds ps') : ps = ps' :=
  (h.append_unique h' (rfl : ds ++ [] = ds ++ []) (by simp) (by simp)).2

end Nested

end Decoration

open Decoration

theorem Item.ofItems_decorations (is : List Item) :
    OfItems ((is.flatMap Item.decorations).map kind) := by
  induction is with
  | nil => exact .nil
  | cons i is ih =>
    rw [List.flatMap_cons, List.map_append]
    apply OfItems.append _ ih
    cases i with
    | single => exact .character .nil
    | range => exact .range .nil

theorem Item.ofList_decorations (is : List Item) (negated : Bool) (start : Nat) :
    OfList (((if negated then [.single .characterListNegation (start + 1)] else []) ++
      is.flatMap Item.decorations : List Decoration).map kind) := by
  cases negated with
  | true => exact .negated (ofItems_decorations is)
  | false => exact .plain (ofItems_decorations is)

theorem Special.isFree_decoration (k : Special) : k.decoration.IsFree := by
  cases k <;> trivial

theorem Span.closing_eq {s : Span} (h : s.isEmpty = false) : s.closing = s.stop - 1 := by
  have hlength : s.length ≠ 0 := by simpa [isEmpty] using h
  rw [closing, last?, if_neg hlength]
  rfl

namespace Node

def bracketKinds : Node → Option (Kind × Kind)
  | group .. => some (.groupStart, .groupEnd)
  | charList .. => some (.openSquareBracket, .closeSquareBracket)
  | _ => none

def brackets? (n : Node) : Option (Decoration × Decoration) :=
  n.bracketKinds.map fun (o, c) => (.single o n.span.offset, .single c n.span.closing)

/-- The brackets of the groups and lists at any depth, in the order of their nodes. -/
def brackets (nodes : List Node) : List (Decoration × Decoration) :=
  (subnodesAll nodes).filterMap brackets?

/-- How many bars stand between the branches of the node. -/
def bars : Node → Nat
  | alternation bs _ => bs.length - 1
  | _ => 0

def barCount (nodes : List Node) : Nat := (subnodesAll nodes).foldr (fun n k => n.bars + k) 0

theorem brackets_cons (n : Node) (ns : List Node) :
    brackets (n :: ns) = n.subnodes.filterMap brackets? ++ brackets ns := by
  rw [brackets, subnodesAll, List.filterMap_append]
  rfl

mutual

theorem nested_decorations :
    ∀ n : Node, Nested n.decorations (n.subnodes.filterMap brackets?)
  | verbatim .. | quantifier .. => .single trivial
  | special k _ => .single k.isFree_decoration
  | charList is negated s =>
    .list rfl (Item.ofList_decorations is negated s.offset) rfl .nil
  | group cs nonCapturing _ s => by
    have hmarker : Nested (if nonCapturing then [⟨.nonCapturingGroup, s.offset + 1, 2⟩] else [])
        [] := by
      cases nonCapturing with
      | true => exact .single trivial
      | false => exact .nil
    have hall := Nested.group (o := .single .groupStart s.offset) (c := .single .groupEnd s.closing)
      rfl (hmarker.append (nested_decorationsAll cs)) rfl .nil
    rw [List.append_nil] at hall
    exact hall
  | alternation bs _ => nested_decorationsBarred bs

theorem nested_decorationsAll : ∀ ns : List Node, Nested (decorationsAll ns) (brackets ns)
  | [] => .nil
  | n :: ns => by
    rw [brackets_cons]
    exact (nested_decorations n).append (nested_decorationsAll ns)

theorem nested_decorationsBarred : ∀ bs : List Node, Nested (decorationsBarred bs) (brackets bs)
  | [] => .nil
  | n :: bs => by
    have hbar : Nested (if bs.isEmpty then [] else [.single .alternation n.span.stop]) [] := by
      split
      · exact .nil
      · exact .single trivial
    have hall := ((nested_decorations n).append hbar).append (nested_decorationsBarred bs)
    rw [List.append_nil] at hall
    rw [brackets_cons]
    exact hall

end

theorem barCount_cons (n : Node) (ns : List Node) :
    barCount (n :: ns) = n.bars + barCount n.children + barCount ns := by
  have hfrom : ∀ (ms : List Node) (k : Nat),
      ms.foldr (fun n k => n.bars + k) k = ms.foldr (fun n k => n.bars + k) 0 + k := by
    intro ms k
    induction ms with
    | nil => exact (Nat.zero_add k).symm
    | cons m ms ih => rw [List.foldr_cons, ih, List.foldr_cons, Nat.add_assoc]
  rw [barCount, subnodesAll, subnodes_eq, List.cons_append, List.foldr_cons, List.foldr_append,
    hfrom, Nat.add_assoc]
  rfl

mutual

theorem count_alternation : ∀ n : Node, (n.decorations.map kind).count .alternation =
    n.bars + barCount n.children
  | verbatim .. | quantifier .. => rfl
  | special k _ => by cases k <;> rfl
  | charList is negated s => by
    have hlist := Item.ofList_decorations is negated s.offset
    have hin := hlist.not_mem (k := .alternation) (by decide)
    rw [decorations, List.cons_append, List.map_append, List.map_cons, List.count_append,
      List.count_cons, List.count_eq_zero.2 hin]
    rfl
  | group cs nonCapturing _ s => by
    rw [decorations, List.map_append, List.map_append, List.count_append, List.count_append,
      count_alternationAll cs]
    cases nonCapturing <;> simp [bars, children, Decoration.single]
  | alternation bs _ => count_alternationBarred bs

theorem count_alternationAll : ∀ ns : List Node,
    ((decorationsAll ns).map kind).count .alternation = barCount ns
  | [] => rfl
  | n :: ns => by
    rw [decorationsAll, List.map_append, List.count_append, count_alternation n,
      count_alternationAll ns, barCount_cons]

theorem count_alternationBarred : ∀ bs : List Node,
    ((decorationsBarred bs).map kind).count .alternation = bs.length - 1 + barCount bs
  | [] => rfl
  | n :: bs => by
    rw [decorationsBarred, List.map_append, List.map_append, List.count_append, List.count_append,
      count_alternation n, count_alternationBarred bs, barCount_cons]
    cases bs with
    | nil => simp [barCount, subnodesAll]
    | cons b bs =>
      simp [Decoration.single]
      omega

end

variable {p : Text} {nodes : List Node}

/-- In a tree that is read from a pattern a bracketed node closes at its last character. -/
theorem brackets?_of_parse {n : Node} (h : parse p = .ok nodes) (hn : n ∈ subnodesAll nodes) :
    n.brackets? = n.bracketKinds.map fun (o, c) =>
      (⟨o, n.span.offset, 1⟩, ⟨c, n.span.stop - 1, 1⟩) := by
  obtain ⟨a, b, -, hspelled, -⟩ := spelledWithin_of_parse h hn
  rw [brackets?, Span.closing_eq hspelled.isEmpty_span]
  rfl

theorem pairwise_brackets_of_parse (h : parse p = .ok nodes) :
    (brackets nodes).Pairwise fun x y => x.1.start < y.1.start := by
  have hcover := (spelledAll_of_parse h).cover
  have hsub := (nested_decorationsAll nodes).sublist
  have hstarts : (decorationsAll nodes).Pairwise fun d e => d.start < e.start := by
    refine hcover.ordered.imp_of_mem ?_
    intro d e hd _ hde
    have hpos := (hcover.within d hd).1
    have hstop : d.stop = d.start + d.length := rfl
    omega
  have hopening := hstarts.sublist hsub
  rwa [List.pairwise_map] at hopening

/-- The decorations of every tree are properly bracketed, in one way only, by the brackets of its
groups and lists, and have a bar for every two neighbouring branches. In a tree that is read from a
pattern the brackets of a node are its first and its last character, and so tell it from all
others. -/
theorem decorations_nested (nodes : List Node) :
    Nested (PatternAnatomy.decorations nodes) (brackets nodes) ∧
      (∀ ps, Nested (PatternAnatomy.decorations nodes) ps → ps = brackets nodes) ∧
      ((PatternAnatomy.decorations nodes).map kind).count .alternation = barCount nodes ∧
      ∀ p, parse p = .ok nodes →
        (∀ n ∈ subnodesAll nodes, n.brackets? = n.bracketKinds.map fun (o, c) =>
          (⟨o, n.span.offset, 1⟩, ⟨c, n.span.stop - 1, 1⟩)) ∧
        (brackets nodes).Pairwise fun x y => x.1.start < y.1.start :=
  ⟨nested_decorationsAll nodes, fun _ hps => hps.unique (nested_decorationsAll nodes),
    count_alternationAll nodes,
    fun _ h => ⟨fun _ => brackets?_of_parse h, pairwise_brackets_of_parse h⟩⟩

theorem decorations_nested_negated_list : ∃ nodes, parse "(?:a|[^b-c])+".toList = .ok nodes ∧
    barCount nodes = 1 ∧ brackets nodes =
      [(⟨.groupStart, 0, 1⟩, ⟨.groupEnd, 11, 1⟩),
       (⟨.openSquareBracket, 5, 1⟩, ⟨.closeSquareBracket, 10, 1⟩)] ∧
      Nested (PatternAnatomy.decorations nodes) (brackets nodes) ∧
      (brackets nodes).Pairwise fun x y => x.1.start < y.1.start := by
  have h : parse "(?:a|[^b-c])+".toList = .ok [
      .group [.alternation [.verbatim ['a'] ⟨3, 1⟩, .charList [.range 'b' 'c' ⟨7, 3⟩] true ⟨5, 6⟩]
        ⟨3, 8⟩] true none ⟨0, 12⟩,
      .quantifier ⟨1, none, false⟩ ⟨12, 1⟩] := by
    decide +kernel
  obtain ⟨hnested, -, -, hparsed⟩ := decorations_nested _
  exact ⟨_, h, rfl, rfl, hnested, (hparsed _ h).2⟩

end Node

end PatternAnatomy
