import PatternAnatomy.Proofs.Grammar.Spelling

namespace PatternAnatomy

/-- The span with `k` more characters in front of the text. -/
def Span.moved (k : Nat) (s : Span) : Span := ⟨s.offset + k, s.length⟩

def Item.moved (k : Nat) : Item → Item
  | single c s => single c (s.moved k)
  | range a b s => range a b (s.moved k)

namespace Node

mutual

/-- The node with `k` more characters in front of the text, and so all that is inside it. -/
def moved (k : Nat) : Node → Node
  | verbatim v s => verbatim v (s.moved k)
  | special kind s => special kind (s.moved k)
  | charList is negated s => charList (is.map (Item.moved k)) negated (s.moved k)
  | quantifier r s => quantifier r (s.moved k)
  | group cs nonCapturing name s => group (movedAll k cs) nonCapturing name (s.moved k)
  | alternation bs s => alternation (movedAll k bs) (s.moved k)

def movedAll (k : Nat) : List Node → List Node
  | [] => []
  | n :: ns => n.moved k :: movedAll k ns

end

@[simp] theorem length_movedAll (k : Nat) (ns : List Node) :
    (movedAll k ns).length = ns.length := by
  induction ns with
  | nil => rfl
  | cons n ns ih => simp [movedAll, ih]

@[simp] theorem isAtom_moved {k : Nat} {n : Node} : (n.moved k).IsAtom ↔ n.IsAtom := by
  cases n <;> rfl

@[simp] theorem isQuantifier_moved {k : Nat} {n : Node} :
    (n.moved k).IsQuantifier ↔ n.IsQuantifier := by
  cases n <;> rfl

theorem map_moved_zero (is : List Item) : is.map (Item.moved 0) = is := by
  have hid : Item.moved 0 = id := by
    funext i
    cases i <;> rfl
  rw [hid, List.map_id]

mutual

theorem moved_zero : ∀ n : Node, n.moved 0 = n
  | verbatim .. | special .. | quantifier .. => rfl
  | charList is _ _ => by
    rw [moved, map_moved_zero]
    rfl
  | group cs _ _ _ => by
    rw [moved, movedAll_zero cs]
    rfl
  | alternation bs _ => by
    rw [moved, movedAll_zero bs]
    rfl

theorem movedAll_zero : ∀ ns : List Node, movedAll 0 ns = ns
  | [] => rfl
  | n :: ns => by rw [movedAll, moved_zero n, movedAll_zero ns]

end

end Node

/-- Whether `r'` behind a text shows a reader no character next, and no range, that `r` would not
show there. -/
structure Text.Replaces (r' r : Text) : Prop where
  head : ∀ c, r'.head? = some c → r.head? = some c
  range : ∀ c v, OpensRange (c :: v ++ r') → OpensRange (c :: v ++ r)

theorem Text.replaces_nil (r : Text) : Replaces [] r where
  head := by simp
  range := by
    intro c v h
    rw [List.cons_append, opensRange_cons] at h ⊢
    obtain ⟨b, u, h⟩ := h
    rw [List.append_nil] at h
    exact ⟨b, u ++ r, by simp [h]⟩

/-- Behind a character that makes no range, all else is out of sight. -/
theorem Text.replaces_cons {c : Char} (hc : c ≠ '-') (r' r : Text) :
    Replaces (c :: r') (c :: r) where
  head := by simp
  range := by
    intro d v h
    rw [List.cons_append, opensRange_cons] at h ⊢
    obtain ⟨b, u, h⟩ := h
    rcases v with _ | ⟨e, _ | ⟨f, v⟩⟩
    · exact absurd (List.cons.inj h).1 hc
    · exact ⟨c, r, by simp [(List.cons.inj h).1]⟩
    · exact ⟨f, v ++ c :: r, by simp [(List.cons.inj h).1]⟩

/-- Behind two characters, all else is out of sight. -/
theorem Text.replaces_append {w : Text} (hw : 2 ≤ w.length) (r' r : Text) :
    Replaces (w ++ r') (w ++ r) := by
  obtain ⟨a, w, rfl⟩ := List.exists_cons_of_length_pos (Nat.lt_of_lt_of_le Nat.two_pos hw)
  obtain ⟨b, w, rfl⟩ := List.exists_cons_of_length_pos (Nat.lt_of_succ_lt_succ hw)
  constructor
  · intro c hc
    exact hc
  · intro c v h
    rw [List.cons_append, opensRange_cons] at h ⊢
    obtain ⟨d, x, h⟩ := h
    rcases v with _ | ⟨e, _ | ⟨f, v⟩⟩
    · exact ⟨b, w ++ r, by simp [(List.cons.inj h).1]⟩
    · exact ⟨a, b :: (w ++ r), by simp [(List.cons.inj h).1]⟩
    · exact ⟨f, v ++ a :: b :: (w ++ r), by simp [(List.cons.inj h).1]⟩

/-- The place with the last characters `r` of the text replaced by `r'` and the first `k` left
out. -/
def Place.spliced (k : Nat) (r r' : Text) (s : Place) : Place :=
  ⟨s.offset - k, s.rest.take (s.rest.length - r.length) ++ r'⟩

section

variable {k : Nat} {r r' v : Text} {s t : Place}

theorem Place.rest_spliced (h : s.rest = v ++ r) : (s.spliced k r r').rest = v ++ r' := by
  simp [spliced, h]

theorem Place.Before.suffix (h : s.Before t) (ht : r <:+ t.rest) : r <:+ s.rest := by
  obtain ⟨v, hv⟩ := h
  rw [hv.rest]
  exact ht.trans (List.suffix_append _ _)

theorem Place.Before.le_offset (h : s.Before t) (hk : k ≤ s.offset) : k ≤ t.offset :=
  Nat.le_trans hk h.offset_le

theorem Place.Reads.spliced (h : s.Reads v t) (hk : k ≤ s.offset) (ht : r <:+ t.rest) :
    (s.spliced k r r').Reads v (t.spliced k r r') := by
  obtain ⟨w, hw⟩ := ht
  have ho := h.offset
  constructor
  · rw [Place.rest_spliced hw.symm, Place.rest_spliced (v := v ++ w), List.append_assoc]
    rw [h.rest, ← hw, List.append_assoc]
  · simp only [Place.spliced]
    omega

theorem Place.Before.moved_span (h : s.Before t) (hk : k ≤ s.offset) :
    Span.between s.offset t.offset = (Span.between (s.offset - k) (t.offset - k)).moved k := by
  have hle := h.offset_le
  simp only [Span.between, Span.moved, Span.mk.injEq]
  omega

theorem Text.Replaces.head_spliced {c : Char} (hr : Replaces r' r) (hs : r <:+ s.rest)
    (hc : (s.spliced k r r').rest.head? = some c) : s.rest.head? = some c := by
  obtain ⟨v, hv⟩ := hs
  rw [Place.rest_spliced hv.symm] at hc
  rw [← hv]
  cases v with
  | nil => exact hr.head c hc
  | cons d v => exact hc

theorem Text.Replaces.opensRange_spliced (hr : Replaces r' r) {c : Char} (h : s.Reads [c] t)
    (ht : r <:+ t.rest) (ho : (s.spliced k r r').rest.OpensRange) : s.rest.OpensRange := by
  obtain ⟨v, hv⟩ := ht
  have hs : s.rest = c :: v ++ r := by rw [h.rest, ← hv]; rfl
  rw [Place.rest_spliced hs] at ho
  rw [hs]
  exact hr.range c v ho

theorem Item.Spelled.spliced {i : Item} (h : i.Spelled s t) (hr : Text.Replaces r' r)
    (hk : k ≤ s.offset) (ht : r <:+ t.rest) :
    ∃ j : Item, i = j.moved k ∧ j.Spelled (s.spliced k r r') (t.spliced k r r') := by
  cases h with
  | range h =>
    rw [h.before.moved_span hk]
    exact ⟨.range _ _ _, rfl, .range (h.spliced hk ht)⟩
  | single h hc hs =>
    rw [h.before.moved_span hk]
    exact ⟨.single _ _, rfl, .single (h.spliced hk ht) hc (mt (hr.opensRange_spliced h ht) hs)⟩

theorem Item.SpelledAll.spliced {is : List Item} (h : SpelledAll is s t) (hr : Text.Replaces r' r)
    (hk : k ≤ s.offset) (ht : r <:+ t.rest) :
    ∃ js : List Item, is = js.map (moved k) ∧
      SpelledAll js (s.spliced k r r') (t.spliced k r r') := by
  induction h with
  | nil => exact ⟨[], rfl, .nil⟩
  | cons h hs ih =>
    obtain ⟨v, -, hv⟩ := h.reads
    obtain ⟨j, rfl, hj⟩ := h.spliced hr hk (hs.before.suffix ht)
    obtain ⟨js, rfl, hjs⟩ := ih (hv.before.le_offset hk) ht
    exact ⟨j :: js, rfl, .cons hj hjs⟩

end

namespace Node

open Grammar

mutual

theorem Spelled.spliced : ∀ {n s t k r r'}, Spelled n s t → Text.Replaces r' r → k ≤ s.offset →
    r <:+ t.rest → ∃ m : Node, n = m.moved k ∧ m.Spelled (s.spliced k r r') (t.spliced k r r')
  | _, _, _, _, _, _, .verbatim hne h hplain hend, hr, hk, ht => by
    rw [h.before.moved_span hk]
    exact ⟨.verbatim _ _, rfl, .verbatim hne (h.spliced hk ht) hplain
      fun c hc => hend c (hr.head_spliced ht hc)⟩
  | _, _, _, _, _, _, .anyChar h, _, hk, ht => by
    rw [h.before.moved_span hk]
    exact ⟨.special _ _, rfl, .anyChar (h.spliced hk ht)⟩
  | _, _, _, _, _, _, .escape h, _, hk, ht => by
    rw [h.before.moved_span hk]
    exact ⟨.special _ _, rfl, .escape (h.spliced hk ht)⟩
  | _, _, _, _, _, _, .quantifier hw h hend, hr, hk, ht => by
    rw [h.before.moved_span hk]
    exact ⟨.quantifier _ _, rfl, .quantifier hw (h.spliced hk ht)
      fun hq => hend ⟨hq.1, hr.head_spliced ht hq.2⟩⟩
  | _, _, _, _, _, _, .charList ha hcaret hne his hrange hb, hr, hk, ht => by
    -- Nowhere else does a node depend on more than one character behind it.
    have hbs := hb.before.suffix ht
    have has := his.before.suffix hbs
    have hka := ha.before.le_offset hk
    obtain ⟨js, rfl, hjs⟩ := his.spliced hr hka hbs
    rw [((ha.before.trans his.before).trans hb.before).moved_span hk]
    exact ⟨.charList js _ _, rfl, .charList (ha.spliced hk has)
      (fun hno hc => hcaret hno (hr.head_spliced has hc)) (by rintro rfl; exact hne rfl) hjs
      (mt (hr.opensRange_spliced hb ht) hrange) (hb.spliced (his.before.le_offset hka) ht)⟩
  | _, _, _, _, _, _, .group ha hname hcs hb, hr, hk, ht => by
    have hbs := hb.before.suffix ht
    have hka := ha.before.le_offset hk
    obtain ⟨ms, rfl, hms⟩ := hcs.spliced hr hka hbs
    rw [((ha.before.trans hcs.before).trans hb.before).moved_span hk]
    exact ⟨.group ms _ _ _, rfl, .group (ha.spliced hk (hcs.before.suffix hbs)) hname hms
      (hb.spliced (hcs.before.le_offset hka) ht)⟩
  | _, _, _, _, _, _, .alternation hlen hbs, hr, hk, ht => by
    obtain ⟨ms, rfl, hms⟩ := hbs.spliced hr hk ht
    rw [hbs.before.moved_span hk]
    exact ⟨.alternation ms _, rfl, .alternation (by simpa using hlen) hms⟩

theorem SpelledAll.spliced : ∀ {ns s t k r r'}, SpelledAll ns s t → Text.Replaces r' r →
    k ≤ s.offset → r <:+ t.rest →
    ∃ ms : List Node, ns = movedAll k ms ∧ SpelledAll ms (s.spliced k r r') (t.spliced k r r')
  | _, _, _, _, _, _, .nil, _, _, _ => ⟨[], rfl, .nil⟩
  | _, _, _, _, _, _, .cons hn h hns, hr, hk, ht => by
    obtain ⟨m, rfl, hm⟩ := h.spliced hr hk (hns.before.suffix ht)
    obtain ⟨ms, rfl, hms⟩ := hns.spliced hr (h.before.le_offset hk) ht
    exact ⟨m :: ms, rfl, .cons (by simpa using hn) hm hms⟩
  | _, _, _, _, _, _, .repeated hn h hq hns, hr, hk, ht => by
    have hkq := h.before.le_offset hk
    have hqs := hns.before.suffix ht
    obtain ⟨ms, rfl, hms⟩ := hns.spliced hr (hq.before.le_offset hkq) ht
    obtain ⟨m, rfl, hm⟩ := h.spliced hr hk (hq.before.suffix hqs)
    obtain ⟨q, hqm, hq⟩ := hq.spliced hr hkq hqs
    cases q with
    | quantifier => exact ⟨m :: _ :: ms, by rw [hqm]; rfl, .repeated (by simpa using hn) hm hq hms⟩
    | _ => cases hqm

theorem SpelledBarred.spliced : ∀ {bs s t k r r'}, SpelledBarred bs s t → Text.Replaces r' r →
    k ≤ s.offset → r <:+ t.rest →
    ∃ ms : List Node, bs = movedAll k ms ∧ SpelledBarred ms (s.spliced k r r') (t.spliced k r r')
  | _, _, _, _, _, _, .last hn h, hr, hk, ht => by
    obtain ⟨m, rfl, hm⟩ := h.spliced hr hk ht
    exact ⟨[m], rfl, .last (by simpa using hn) hm⟩
  | _, _, _, _, _, _, .cons hn h hbar hbs, hr, hk, ht => by
    have hkb := h.before.le_offset hk
    have hbars := hbs.before.suffix ht
    obtain ⟨m, rfl, hm⟩ := h.spliced hr hk (hbar.before.suffix hbars)
    obtain ⟨ms, rfl, hms⟩ := hbs.spliced hr (hbar.before.le_offset hkb) ht
    exact ⟨m :: ms, rfl, .cons (by simpa using hn) hm (hbar.spliced hkb hbars) hms⟩

end

end Node

end PatternAnatomy
