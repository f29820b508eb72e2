import Mathlib.Tactic.Common
import PatternAnatomy.Failure
import PatternAnatomy.Node.Outline
import PatternAnatomy.Proofs.Text.OneLine

namespace PatternAnatomy

/-- What a drawing has a line for. -/
inductive Part where
  | node (n : Node)
  | item (i : Item)

namespace Part

def typeName : Part → Text
  | node n => n.typeName
  | item i => i.typeName

def label : Part → Text
  | node n => n.label
  | item i => i.label

def span : Part → Span
  | node n => n.span
  | item i => i.span

def inside : Part → List Part
  | node (.charList items _ _) => items.map item
  | node n => n.children.map node
  | item _ => []

/-- The part that a path leads to; each index of the path counts within the part before it. -/
def at? : List Part → List Nat → Option Part
  | _, [] => none
  | ps, i :: q => ps[i]?.bind fun p => if q.isEmpty then some p else at? p.inside q

/-- The path to what comes directly behind, inside the same part. -/
def next : List Nat → List Nat
  | [] => []
  | i :: q => if q.isEmpty then [i + 1] else i :: next q

def hasLater (ps : List Part) (q : List Nat) : Bool := (at? ps (next q)).isSome

/-- Two columns for each part around the one that the path leads to. -/
def indent (ps : List Part) (q : List Nat) : Text :=
  (List.range (q.length - 1)).flatMap fun k =>
    bif hasLater ps (q.take (k + 1)) then ['│', ' '] else [' ', ' ']

def connector (ps : List Part) (q : List Nat) : Text :=
  bif hasLater ps q then "├─ ".toList else "└─ ".toList

/-- What a line says of a part, wherever it stands. -/
def caption (p : Part) : Text :=
  p.typeName ++ ": ".toList ++ Text.shortened 30 p.label ++ " @".toList ++ p.span.render

def line (ps : List Part) (q : List Nat) (p : Part) : Text :=
  indent ps q ++ connector ps q ++ p.caption

/-- Paths in the order in which a reader from the outside in and from left to right comes by their
ends. -/
def Before (q r : List Nat) : Prop := List.Lex (fun i j => i < j) q r

variable {p x : Part} {ps ps' : List Part} {q : List Nat} {i : Nat} {s s' : Text}

theorem ne_nil_of_at? (h : at? ps q = some x) : q ≠ [] := by
  rintro rfl
  cases h

theorem at?_nil (q : List Nat) : at? [] q = none := by
  cases q <;> rfl

theorem at?_zero_cons (hq : q ≠ []) : at? (p :: ps) (0 :: q) = at? p.inside q := by
  obtain ⟨j, q, rfl⟩ := List.exists_cons_of_ne_nil hq
  rfl

theorem at?_succ_cons : at? (p :: ps) ((i + 1) :: q) = at? ps (i :: q) := rfl

theorem next_ne_nil (hq : q ≠ []) : next q ≠ [] := by
  obtain ⟨j, q, rfl⟩ := List.exists_cons_of_ne_nil hq
  rw [next]
  split <;> exact List.cons_ne_nil _ _

theorem hasLater_zero : hasLater (p :: ps) [0] = !ps.isEmpty := by
  cases ps <;> rfl

theorem hasLater_zero_cons (hq : q ≠ []) : hasLater (p :: ps) (0 :: q) = hasLater p.inside q := by
  have hnext : next (0 :: q) = 0 :: next q := if_neg (by simpa using hq)
  rw [hasLater, hnext, at?_zero_cons (next_ne_nil hq), hasLater]

theorem hasLater_succ_cons : hasLater (p :: ps) ((i + 1) :: q) = hasLater ps (i :: q) := by
  cases q <;> rfl

theorem indent_zero_cons (hq : q ≠ []) :
    s ++ indent (p :: ps) (0 :: q) = Outline.deeper s ps.isEmpty ++ indent p.inside q := by
  have hcolumn : (bif hasLater (p :: ps) ((0 :: q).take 1) then ['│', ' '] else [' ', ' ']) =
      if ps.isEmpty then [' ', ' '] else ['│', ' '] := by
    rw [List.take_succ_cons, List.take_zero, hasLater_zero]
    cases ps <;> rfl
  have hinner : ∀ k, hasLater (p :: ps) ((0 :: q).take (k + 2)) =
      hasLater p.inside (q.take (k + 1)) := by
    intro k
    rw [List.take_succ_cons, hasLater_zero_cons]
    simpa using hq
  obtain ⟨n, hn⟩ := Nat.exists_eq_succ_of_ne_zero (mt List.length_eq_zero_iff.1 hq)
  simp only [indent, Outline.deeper, List.length_cons, hn, Nat.succ_eq_add_one, Nat.add_sub_cancel,
    List.range_succ_eq_map, List.flatMap_cons, List.flatMap_map, hcolumn, hinner,
    List.append_assoc]

theorem line_zero : s ++ line (p :: ps) [0] p ++ ['\n'] =
    Outline.line s ps.isEmpty p.typeName p.label p.span := by
  have hconnector : connector (p :: ps) [0] =
      if ps.isEmpty then "└─ ".toList else "├─ ".toList := by
    rw [connector, hasLater_zero]
    cases ps <;> rfl
  simp only [line, hconnector, caption, Outline.line, List.append_assoc]
  rfl

theorem line_zero_cons (hq : q ≠ []) :
    s ++ line (p :: ps) (0 :: q) x = Outline.deeper s ps.isEmpty ++ line p.inside q x := by
  rw [line, line, connector, connector, hasLater_zero_cons hq, ← List.append_assoc,
    ← List.append_assoc, indent_zero_cons hq, List.append_assoc, List.append_assoc,
    List.append_assoc]

theorem line_succ_cons : line (p :: ps) ((i + 1) :: q) x = line ps (i :: q) x := by
  have hindent : indent (p :: ps) ((i + 1) :: q) = indent ps (i :: q) := by
    simp only [indent, List.length_cons, List.take_succ_cons, hasLater_succ_cons]
  rw [line, line, connector, connector, hindent, hasLater_succ_cons]

/-- The parts inside the first part, and those past it, as parts of the whole. -/
def below (x : List Nat × Part) : List Nat × Part := (0 :: x.1, x.2)

def past (x : List Nat × Part) : List Nat × Part := (x.1.modifyHead (· + 1), x.2)

/-- All parts with their paths, in the order of the paths, where the lines `ls` draw one of them
each. -/
structure Listing (ps : List Part) (s : Text) (ls : List Text) (ms : List (List Nat × Part)) :
    Prop where
  ordered : ms.Pairwise fun x y => Before x.1 y.1
  mem_iff : ∀ q x, (q, x) ∈ ms ↔ at? ps q = some x
  lines : ls = ms.map fun x => s ++ line ps x.1 x.2 ++ ['\n']

namespace Listing

variable {ls ls' : List Text} {ms ms' : List (List Nat × Part)}

theorem nil (s : Text) : Listing [] s [] [] where
  ordered := .nil
  mem_iff q x := by simp [at?_nil]
  lines := rfl

theorem ne_nil (h : Listing ps s ls ms) {y : List Nat × Part} (hy : y ∈ ms) : y.1 ≠ [] :=
  ne_nil_of_at? ((h.mem_iff y.1 y.2).1 hy)

theorem exists_cons (h : Listing ps s ls ms) {y : List Nat × Part} (hy : y ∈ ms) :
    ∃ i q x, y = (i :: q, x) := by
  obtain ⟨i, q, hq⟩ := List.exists_cons_of_ne_nil (h.ne_nil hy)
  exact ⟨i, q, y.2, Prod.ext hq rfl⟩

theorem ordered_below (h : Listing ps s ls ms) :
    (ms.map below).Pairwise fun x y => Before x.1 y.1 :=
  List.pairwise_map.2 (h.ordered.imp .cons)

theorem ordered_past (h : Listing ps s ls ms) :
    (ms.map past).Pairwise fun x y => Before x.1 y.1 := by
  refine List.pairwise_map.2 (h.ordered.imp_of_mem ?_)
  intro y z hy hz hlt
  obtain ⟨i, q, x, rfl⟩ := h.exists_cons hy
  obtain ⟨j, r, x', rfl⟩ := h.exists_cons hz
  cases hlt with
  | rel hij => exact .rel (Nat.succ_lt_succ hij)
  | cons hqr => exact .cons hqr

theorem before_past (h : Listing ps s ls ms) {y : List Nat × Part} (hy : y ∈ ms.map past) :
    Before (0 :: q) y.1 := by
  obtain ⟨z, hz, rfl⟩ := List.mem_map.1 hy
  obtain ⟨i, r, x, rfl⟩ := h.exists_cons hz
  exact .rel (Nat.succ_pos i)

theorem ordered_cons (h : Listing ps s ls ms) (h' : Listing ps' s' ls' ms') :
    (([0], p) :: (ms.map below ++ ms'.map past)).Pairwise fun x y => Before x.1 y.1 := by
  refine .cons ?_ (List.pairwise_append.2 ⟨h.ordered_below, h'.ordered_past, ?_⟩)
  · intro y hy
    rcases List.mem_append.1 hy with hy | hy
    · obtain ⟨z, hz, rfl⟩ := List.mem_map.1 hy
      obtain ⟨i, q, x, rfl⟩ := h.exists_cons hz
      exact .cons .nil
    · exact h'.before_past hy
  · intro y hy z hz
    obtain ⟨w, -, rfl⟩ := List.mem_map.1 hy
    exact h'.before_past hz

theorem mem_map_below {r : List Nat} :
    (r, x) ∈ ms.map below ↔ ∃ q, r = 0 :: q ∧ (q, x) ∈ ms := by
  constructor
  · intro hr
    obtain ⟨⟨q, y⟩, hq, heq⟩ := List.mem_map.1 hr
    obtain ⟨rfl, rfl⟩ := Prod.mk.inj heq
    exact ⟨q, rfl, hq⟩
  · rintro ⟨q, rfl, hq⟩
    exact List.mem_map.2 ⟨_, hq, rfl⟩

theorem mem_map_past (h : Listing ps s ls ms) {r : List Nat} :
    (r, x) ∈ ms.map past ↔ ∃ i q, r = (i + 1) :: q ∧ (i :: q, x) ∈ ms := by
  constructor
  · intro hr
    obtain ⟨y, hy, heq⟩ := List.mem_map.1 hr
    obtain ⟨i, q, z, rfl⟩ := h.exists_cons hy
    obtain ⟨rfl, rfl⟩ := Prod.mk.inj heq
    exact ⟨i, q, rfl, hy⟩
  · rintro ⟨i, q, rfl, hq⟩
    exact List.mem_map.2 ⟨_, hq, rfl⟩

theorem mem_cons_iff (h : Listing p.inside s ls ms) (h' : Listing ps s' ls' ms') (q : List Nat)
    (x : Part) : (q, x) ∈ ([0], p) :: (ms.map below ++ ms'.map past) ↔
      at? (p :: ps) q = some x := by
  rw [List.mem_cons, List.mem_append, mem_map_below, h'.mem_map_past, Prod.mk.injEq]
  rcases q with _ | ⟨_ | i, q⟩
  · simp [at?]
  · by_cases hq : q = []
    · subst hq
      simp [h.mem_iff, at?, eq_comm]
    · simp [h.mem_iff, at?_zero_cons hq, hq]
  · rw [at?_succ_cons, ← h'.mem_iff]
    constructor
    · rintro (⟨hq, -⟩ | ⟨_, hq, -⟩ | ⟨_, _, hq, hmem⟩)
      · cases hq
      · cases hq
      · cases hq
        exact hmem
    · exact fun hmem => .inr (.inr ⟨i, q, rfl, hmem⟩)

theorem cons (h : Listing p.inside (Outline.deeper s ps.isEmpty) ls ms)
    (h' : Listing ps s ls' ms') :
    Listing (p :: ps) s (Outline.line s ps.isEmpty p.typeName p.label p.span :: (ls ++ ls'))
      (([0], p) :: (ms.map below ++ ms'.map past)) where
  ordered := h.ordered_cons h'
  mem_iff := h.mem_cons_iff h'
  lines := by
    have hbelow : ∀ y ∈ ms, Outline.deeper s ps.isEmpty ++ line p.inside y.1 y.2 ++ ['\n'] =
        s ++ line (p :: ps) (below y).1 (below y).2 ++ ['\n'] :=
      fun y hy => by rw [below, line_zero_cons (h.ne_nil hy)]
    have hpast : ∀ y ∈ ms', s ++ line ps y.1 y.2 ++ ['\n'] =
        s ++ line (p :: ps) (past y).1 (past y).2 ++ ['\n'] := by
      intro y hy
      obtain ⟨i, q, x, rfl⟩ := h'.exists_cons hy
      rw [← line_succ_cons (p := p)]
      rfl
    rw [List.map_cons, List.map_append, List.map_map, List.map_map, ← line_zero, h.lines, h'.lines,
      List.map_congr_left hbelow, List.map_congr_left hpast]
    rfl

end Listing

end Part

open PatternAnatomy.Part

theorem Item.exists_listing (s : Text) (is : List Item) :
    ∃ ms, Listing (is.map .item) s (outlineAll s is) ms := by
  induction is with
  | nil => exact ⟨_, .nil s⟩
  | cons i is ih =>
    obtain ⟨ms, h⟩ := ih
    have hi := Listing.cons (p := .item i) (.nil _) h
    rw [List.isEmpty_map] at hi
    exact ⟨_, hi⟩

mutual

theorem Node.exists_listing_inside (s : Text) :
    ∀ n : Node, ∃ ms, Listing (Part.node n).inside s (n.outlineInside s) ms
  | .charList is _ _ => Item.exists_listing s is
  | .group cs _ _ _ | .alternation cs _ => exists_listing s cs
  | .verbatim .. | .special .. | .quantifier .. => ⟨_, .nil s⟩

theorem Node.exists_listing (s : Text) :
    ∀ ns : List Node, ∃ ms, Listing (ns.map .node) s (outlineAll s ns) ms
  | [] => ⟨_, .nil s⟩
  | n :: ns => by
    obtain ⟨ms, h⟩ := exists_listing_inside (Outline.deeper s ns.isEmpty) n
    obtain ⟨ms', h'⟩ := exists_listing s ns
    rw [← List.isEmpty_map (f := Part.node)] at h
    have hn := Listing.cons (p := .node n) h h'
    rw [List.isEmpty_map] at hn
    exact ⟨_, hn⟩

end

open Text

theorem Special.oneLine_label (k : Special) : OneLine k.label := by
  cases k <;> decide

theorem Repetition.oneLine_label (r : Repetition) : OneLine r.label := by
  obtain ⟨min, max, lazy⟩ := r
  refine oneLine_append.2 ⟨oneLine_append.2 ⟨oneLine_append.2
    ⟨oneLine_ofNat min, by decide⟩, ?_⟩, ?_⟩
  · cases max with
    | none => exact of_decide_eq_true rfl
    | some n => exact oneLine_ofNat n
  · cases lazy <;> exact of_decide_eq_true rfl

namespace Part

variable {p : Part} {ps : List Part} {q : List Nat}

theorem oneLine_typeName (p : Part) : OneLine p.typeName := by
  rcases p with n | i
  · cases n <;> exact of_decide_eq_true rfl
  · cases i <;> exact of_decide_eq_true rfl

/-- What a part says of itself stands on one line, unless it is a list. -/
theorem oneLine_label (hp : ∀ is negated s, p ≠ .node (.charList is negated s)) :
    OneLine p.label := by
  rcases p with n | i
  · cases n with
    | verbatim v _ => exact oneLine_quoted v
    | special k _ => exact k.oneLine_label
    | charList is negated s => exact absurd rfl (hp is negated s)
    | quantifier r _ => exact r.oneLine_label
    | group _ nonCapturing name _ =>
      cases name with
      | some w => exact oneLine_append.2 ⟨by decide, oneLine_quoted w⟩
      | none => cases nonCapturing <;> exact of_decide_eq_true rfl
    | alternation bs _ => exact oneLine_append.2 ⟨oneLine_ofNat _, by decide⟩
  · cases i with
    | single c _ => exact oneLine_quotedChar c
    | range a b _ =>
      exact oneLine_append.2 ⟨oneLine_quotedChar a,
        oneLine_cons.2 ⟨by decide, oneLine_quotedChar b⟩⟩

theorem oneLine_indent (ps : List Part) (q : List Nat) : OneLine (indent ps q) := by
  intro h
  obtain ⟨k, -, hk⟩ := List.mem_flatMap.1 h
  revert hk
  cases hasLater ps (q.take (k + 1)) <;> decide

theorem oneLine_connector (ps : List Part) (q : List Nat) : OneLine (connector ps q) := by
  unfold connector
  cases hasLater ps q <;> decide

theorem oneLine_line_iff : OneLine (line ps q p) ↔ OneLine (p.label.take 30) := by
  have hlabel : OneLine p.caption ↔ OneLine (p.label.take 30) := by
    simp only [caption, oneLine_append, oneLine_shortened_iff, p.oneLine_typeName,
      oneLine_render p.span, true_and, and_true]
    exact ⟨fun h => h.1.2, fun h => ⟨⟨by decide, h⟩, by decide⟩⟩
  rw [line, oneLine_append, oneLine_append, hlabel]
  exact and_iff_right ⟨oneLine_indent ps q, oneLine_connector ps q⟩

/-- No list shows a line feed in what is drawn of its label. -/
def ListsOneLine (ps : List Part) : Prop :=
  ∀ q is negated s, at? ps q = some (.node (.charList is negated s)) →
    OneLine ((Node.charList is negated s).label.take 30)

namespace Listing

variable {s : Text} {ls : List Text} {ms : List (List Nat × Part)}

theorem flatten_eq_ended (h : Listing ps [] ls ms) :
    ls.flatten = ended (ms.map fun x => line ps x.1 x.2) := by
  have hlines : ls = ms.map fun x => line ps x.1 x.2 ++ ['\n'] := by
    rw [h.lines]
    exact List.map_congr_left fun x _ => congrArg (· ++ ['\n']) (List.nil_append _)
  rw [hlines, ended, List.flatMap_map, List.flatMap_def]

theorem listsOneLine_iff (h : Listing ps s ls ms) :
    ListsOneLine ps ↔ ∀ t ∈ ms.map fun x => line ps x.1 x.2, OneLine t := by
  simp only [List.forall_mem_map, oneLine_line_iff]
  constructor
  · rintro hlists ⟨q, p⟩ hmem
    by_cases hp : ∃ is negated s, p = .node (.charList is negated s)
    · obtain ⟨is, negated, s, rfl⟩ := hp
      exact hlists q is negated s ((h.mem_iff _ _).1 hmem)
    · exact fun hfeed => oneLine_label (fun is negated s hlist => hp ⟨is, negated, s, hlist⟩)
        (List.mem_of_mem_take hfeed)
  · intro hall q is negated s hq
    exact hall (q, _) ((h.mem_iff _ _).2 hq)

end Listing

end Part

/-- The drawing of a tree has one line for each node and each member of a list, in the order of
their paths, with the columns of the parts around it, its branch, and what it says of itself up to
its span. The drawing falls into these lines at its line feeds exactly if no list shows a line feed
in its label. -/
theorem outline_lines (nodes : List Node) : ∃ ms : List (List Nat × Part),
    (ms.Pairwise fun x y => Before x.1 y.1) ∧
    (∀ q p, (q, p) ∈ ms ↔ at? (nodes.map .node) q = some p) ∧
    outline nodes = ended (ms.map fun x => line (nodes.map .node) x.1 x.2) ∧
    (((outline nodes).splitOn '\n').length = ms.length + 1 ↔ ListsOneLine (nodes.map .node)) ∧
    (ListsOneLine (nodes.map .node) → (outline nodes).splitOn '\n' =
      (ms.map fun x => line (nodes.map .node) x.1 x.2) ++ [[]]) := by
  obtain ⟨ms, h⟩ := Node.exists_listing [] nodes
  have houtline : outline nodes = ended (ms.map fun x => line (nodes.map .node) x.1 x.2) :=
    h.flatten_eq_ended
  refine ⟨ms, h.ordered, h.mem_iff, houtline, ?_, fun hlists => ?_⟩
  · rw [houtline, h.listsOneLine_iff, ← length_splitOn_ended_iff, List.length_map]
  · rw [houtline, splitOn_ended (h.listsOneLine_iff.1 hlists)]

/-- Two parts are drawn in three lines where the one is a list of the other, a line feed. -/
theorem outline_of_feed_in_list : ∃ nodes, parse "[\n]".toList = .ok nodes ∧
    (∀ q p, at? (nodes.map .node) q = some p → q = [0] ∨ q = [0, 0]) ∧
    ((outline nodes).splitOn '\n').length = 3 + 1 := by
  have h : parse "[\n]".toList = .ok [.charList [.single '\n' ⟨1, 1⟩] false ⟨0, 3⟩] := by
    decide +kernel
  refine ⟨_, h, ?_, by decide +kernel⟩
  rintro (_ | ⟨_ | i, _ | ⟨_ | j, _ | ⟨k, q⟩⟩⟩) p hq <;> simp_all [at?, inside]

end PatternAnatomy
