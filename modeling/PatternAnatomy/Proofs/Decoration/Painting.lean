import PatternAnatomy.Decoration.Painting

namespace PatternAnatomy

variable {p t u v : Text} {d : Decoration} {ds : List Decoration} {palette : Palette}
  {colored : Bool} {cursor i j : Nat}

theorem Text.drop_min_length (t : Text) (i : Nat) : t.drop (min i t.length) = t.drop i := by
  rcases Nat.le_total i t.length with h | h
  · rw [Nat.min_eq_left h]
  · rw [Nat.min_eq_right h, List.drop_length, List.drop_of_length_le h]

namespace Painting

/-- One step of painting: up to a decoration, through it, and on behind it or from the end. -/
theorem paintFrom_cons (hc : cursor ≤ p.length) (hd : cursor ≤ d.start) :
    paintFrom palette colored cursor (p.drop cursor) (d :: ds) =
      (p.drop cursor).take (d.start - cursor) ++ (touch palette colored d.kind (d.covered p) ++
        paintFrom palette colored (min d.stop p.length) (p.drop (min d.stop p.length)) ds) := by
  have hstart : (p.drop cursor).drop (d.start - cursor) = p.drop d.start := by
    rw [List.drop_drop, Nat.add_sub_cancel' hd]
  have hstop : (p.drop d.start).drop d.length = p.drop (min d.stop p.length) := by
    rw [Text.drop_min_length, List.drop_drop, Decoration.stop]
  have hcursor : cursor + ((p.drop cursor).take (d.start - cursor)).length +
      ((p.drop d.start).take d.length).length = min d.stop p.length := by
    simp only [List.length_take, List.length_drop, Decoration.stop]
    omega
  rw [paintFrom, if_neg (by omega)]
  simp only [hstart, hstop, hcursor, Decoration.covered]

end Painting

theorem Decoration.append_covered_append (hd : cursor ≤ d.start) :
    (p.drop cursor).take (d.start - cursor) ++ (d.covered p ++ p.drop (min d.stop p.length)) =
      p.drop cursor := by
  have hstart : p.drop d.start = (p.drop cursor).drop (d.start - cursor) := by
    rw [List.drop_drop, Nat.add_sub_cancel' hd]
  rw [Text.drop_min_length, covered, stop, ← List.drop_drop, List.take_append_drop, hstart,
    List.take_append_drop]

/-- The characters from index `i` up to index `j`, where the text has them. -/
def Text.slice? (t : Text) (i j : Nat) : Option Text :=
  if i ≤ j ∧ j ≤ t.length then some ((t.drop i).take (j - i)) else none

theorem Text.slice?_min_length (hi : i ≤ t.length) (hij : i ≤ j) :
    t.slice? i (min j t.length) = some ((t.drop i).take (j - i)) := by
  rw [Text.slice?, if_pos ⟨by omega, by omega⟩, Option.some.injEq, List.take_eq_take_iff,
    List.length_drop]
  omega

theorem Decoration.slice?_eq_some_covered (d : Decoration) :
    p.slice? (min d.start p.length) (min d.stop p.length) = some (d.covered p) := by
  have hle : min d.start p.length ≤ d.stop := by
    rw [Decoration.stop]
    omega
  rw [Text.slice?_min_length (Nat.min_le_right _ _) hle, Text.drop_min_length, covered,
    Option.some.injEq, List.take_eq_take_iff, List.length_drop, Decoration.stop]
  omega

namespace Painting

/-- Painting by indices into the pattern: every part of it is a slice between two of them, and a
slice out of bounds leaves no result. -/
def slicedFrom? (palette : Palette) (colored : Bool) (p : Text) (cursor : Nat) :
    List Decoration → Option Text
  | [] => p.slice? cursor p.length
  | d :: ds =>
    let start := min d.start p.length
    let stop := min d.stop p.length
    if start < cursor then slicedFrom? palette colored p cursor ds
    else do
      let gap ← p.slice? cursor start
      let covered ← p.slice? start stop
      let behind ← slicedFrom? palette colored p stop ds
      return gap ++ (touch palette colored d.kind covered ++ behind)

theorem slicedFrom?_eq_some (hc : cursor ≤ p.length) : slicedFrom? palette colored p cursor ds =
    some (paintFrom palette colored cursor (p.drop cursor) ds) := by
  induction ds generalizing cursor with
  | nil =>
    rw [slicedFrom?, Text.slice?, if_pos ⟨hc, Nat.le_refl _⟩, ← List.length_drop, List.take_length]
    rfl
  | cons d ds ih =>
    rw [slicedFrom?]
    by_cases hd : d.start < cursor
    · rw [if_pos (by omega), ih hc, paintFrom, if_pos hd]
    · have hgap := Text.slice?_min_length hc (Nat.le_of_not_lt hd)
      -- Behind the decoration the cursor is within the pattern again.
      have hbehind := ih (Nat.min_le_right d.stop p.length)
      rw [if_neg (by omega), paintFrom_cons hc (Nat.le_of_not_lt hd)]
      simp only [hgap, d.slice?_eq_some_covered, hbehind]
      rfl

def isParameter (c : Char) : Bool := c.isDigit || c == ';'

/-- What stands behind the color sequence that a text begins with, if it does: an escape, a bracket,
parameters and the letter `m`. -/
def behindSequence? : Text → Option Text
  | '\x1b' :: '[' :: t =>
    match t.dropWhile isParameter with
    | 'm' :: u => some u
    | _ => none
  | _ => none

theorem length_lt_of_behindSequence? (h : behindSequence? t = some u) : u.length < t.length := by
  unfold behindSequence? at h
  split at h
  next t =>
    have hle := (List.dropWhile_suffix isParameter (l := t)).length_le
    split at h
    next hdrop =>
      obtain rfl := Option.some.inj h
      rw [hdrop, List.length_cons] at hle
      rw [List.length_cons, List.length_cons]
      omega
    next => cases h
  next => cases h

def withoutSequences : Text → Text
  | [] => []
  | c :: t =>
    match h : behindSequence? (c :: t) with
    | some u =>
      have := length_lt_of_behindSequence? h
      withoutSequences u
    | none => c :: withoutSequences t
termination_by t => t.length
decreasing_by
  · assumption
  · exact Nat.lt_succ_self _

theorem withoutSequences_of_behind (h : behindSequence? t = some u) :
    withoutSequences t = withoutSequences u := by
  cases t with
  | nil => cases h
  | cons c t =>
    rw [withoutSequences]
    split
    next hu => rw [h] at hu; cases hu; rfl
    next hu => rw [h] at hu; cases hu

theorem withoutSequences_append (ht : '\x1b' ∉ t) :
    withoutSequences (t ++ u) = t ++ withoutSequences u := by
  induction t with
  | nil => rfl
  | cons c t ih =>
    obtain ⟨hc, ht⟩ := not_or.1 (mt List.mem_cons.2 ht)
    have hno : behindSequence? (c :: (t ++ u)) = none := by
      unfold behindSequence?
      split
      next h => exact absurd (List.cons.inj h).1.symm hc
      next => rfl
    rw [List.cons_append, withoutSequences]
    split
    next hu => rw [hno] at hu; cases hu
    next => rw [ih ht, List.cons_append]

theorem withoutSequences_sequence (hv : ∀ c ∈ v, isParameter c = true) :
    withoutSequences ('\x1b' :: '[' :: v ++ 'm' :: u) = withoutSequences u := by
  apply withoutSequences_of_behind
  have hdrop : (v ++ 'm' :: u).dropWhile isParameter = 'm' :: u := by
    rw [List.dropWhile_append_of_pos hv]
    rfl
  show behindSequence? ('\x1b' :: '[' :: (v ++ 'm' :: u)) = some u
  simp only [behindSequence?, hdrop]

theorem isParameter_of_mem_ofNat {n : Nat} {c : Char} (hc : c ∈ Text.ofNat n) :
    isParameter c = true := by
  have hdigit : c.isDigit = true := Nat.isDigit_of_mem_toDigits (by decide) (by decide) hc
  rw [isParameter, hdigit, Bool.true_or]

theorem isParameter_of_mem_backgroundCode (color : Color) :
    ∀ c ∈ color.backgroundCode, isParameter c = true := by
  cases color with
  | rgb r g b =>
    have hmode : ∀ c ∈ "48;2;".toList, isParameter c = true := List.all_eq_true.1 rfl
    have hnumber : ∀ n, ∀ c ∈ Text.ofNat n, isParameter c = true :=
      fun _ _ => isParameter_of_mem_ofNat
    have hnext : ∀ n, ∀ c ∈ ';' :: Text.ofNat n, isParameter c = true :=
      fun n => List.forall_mem_cons.2 ⟨rfl, hnumber n⟩
    have hred := List.forall_mem_append.2 ⟨hmode, hnumber r⟩
    have hgreen := List.forall_mem_append.2 ⟨hred, hnext g⟩
    exact List.forall_mem_append.2 ⟨hgreen, hnext b⟩
  | _ => exact List.all_eq_true.1 rfl

theorem withoutSequences_touch {kind : Decoration.Kind} (ht : '\x1b' ∉ t) :
    withoutSequences (touch palette true kind t ++ u) = t ++ withoutSequences u := by
  rw [touch]
  cases palette.colorOf kind with
  | none => exact withoutSequences_append ht
  | some color =>
    have hset : '\x1b' :: '[' :: color.backgroundCode ++ 'm' :: (t ++ ("\x1b[49m".toList ++ u)) =
        onBackground color t ++ u := by
      rw [onBackground, List.append_assoc, List.append_assoc, List.cons_append]
      rfl
    calc withoutSequences (onBackground color t ++ u)
        = withoutSequences (t ++ ("\x1b[49m".toList ++ u)) := by
          rw [← hset]
          exact withoutSequences_sequence (isParameter_of_mem_backgroundCode color)
      _ = t ++ withoutSequences ("\x1b[49m".toList ++ u) := withoutSequences_append ht
      _ = t ++ withoutSequences u := by
          rw [← withoutSequences_sequence (v := ['4', '9']) (u := u) (List.all_eq_true.1 rfl)]
          rfl

/-- Texts of `plain` characters come back from `erase`, painted or not. -/
structure Erases (erase : Text → Text) (plain : Char → Prop) (palette : Palette) (colored : Bool) :
    Prop where
  nil : erase [] = []
  text : ∀ t u, (∀ c ∈ t, plain c) → erase (t ++ u) = t ++ erase u
  touched : ∀ kind t u, (∀ c ∈ t, plain c) →
    erase (touch palette colored kind t ++ u) = t ++ erase u

theorem erases_id (h : ∀ kind t, touch palette colored kind t = t) :
    Erases id (fun _ => True) palette colored where
  nil := rfl
  text _ _ _ := rfl
  touched kind t u _ := by rw [h, id, id]

theorem erases_withoutSequences : Erases withoutSequences (· ≠ '\x1b') palette true where
  nil := by rw [withoutSequences]
  text t u ht := withoutSequences_append fun hc => ht _ hc rfl
  touched kind t u ht := withoutSequences_touch fun hc => ht _ hc rfl

theorem Erases.paintFrom {erase : Text → Text} {plain : Char → Prop}
    (h : Erases erase plain palette colored) (hp : ∀ c ∈ p, plain c) (hc : cursor ≤ p.length) :
    erase (paintFrom palette colored cursor (p.drop cursor) ds) = p.drop cursor := by
  induction ds generalizing cursor with
  | nil =>
    have hrest := h.text (p.drop cursor) [] fun c hc => hp c (List.mem_of_mem_drop hc)
    rw [h.nil, List.append_nil] at hrest
    exact hrest
  | cons d ds ih =>
    by_cases hd : d.start < cursor
    · rw [Painting.paintFrom, if_pos hd]
      exact ih hc
    · have hstart := Nat.le_of_not_lt hd
      have hgap : ∀ c ∈ (p.drop cursor).take (d.start - cursor), plain c :=
        fun c hc => hp c (List.mem_of_mem_drop (List.mem_of_mem_take hc))
      have hcovered : ∀ c ∈ d.covered p, plain c :=
        fun c hc => hp c (List.mem_of_mem_drop (List.mem_of_mem_take hc))
      rw [paintFrom_cons hc hstart, h.text _ _ hgap, h.touched _ _ _ hcovered,
        ih (Nat.min_le_right _ _), Decoration.append_covered_append hstart]

end Painting

theorem paint_empty (p : Text) (ds : List Decoration) (colored : Bool) :
    paint p ds .empty colored = p :=
  (Painting.erases_id fun _ _ => rfl).paintFrom (fun _ _ => trivial) (Nat.zero_le _)

/-- Whatever the decorations are, painting slices the pattern within its bounds; without colors it
passes the pattern on, and what it writes in colors is the pattern but for the sequences that set
them. -/
theorem paint_keeps_pattern (p : Text) (ds : List Decoration) (palette : Palette) :
    (∀ colored, Painting.slicedFrom? palette colored p 0 ds = some (paint p ds palette colored)) ∧
      paint p ds palette false = p ∧ (∀ colored, paint p ds .empty colored = p) ∧
      ('\x1b' ∉ p → Painting.withoutSequences (paint p ds palette true) = p) := by
  have hstart : 0 ≤ p.length := Nat.zero_le _
  refine ⟨?_, ?_, ?_, ?_⟩
  · intro colored
    exact Painting.slicedFrom?_eq_some hstart
  · have hplain : ∀ kind t, Painting.touch palette false kind t = t := by
      intro kind t
      rw [Painting.touch]
      cases palette.colorOf kind <;> rfl
    exact (Painting.erases_id hplain).paintFrom (fun _ _ => trivial) hstart
  · intro colored
    have hplain : ∀ kind t, Painting.touch .empty colored kind t = t := fun _ _ => rfl
    exact (Painting.erases_id hplain).paintFrom (fun _ _ => trivial) hstart
  · intro hp
    exact Painting.erases_withoutSequences.paintFrom (fun c hc h => hp (h ▸ hc)) hstart

theorem paint_keeps_overlapped_pattern : '\x1b' ∉ "a.b".toList ∧
    Painting.withoutSequences (paint "a.b".toList [⟨.anyChar, 1, 9⟩, ⟨.escape, 0, 2⟩,
      ⟨.literalString, 7, 0⟩] (fun _ => some (.rgb 0 9 255)) true) = "a.b".toList := by
  have hp : '\x1b' ∉ "a.b".toList := by decide
  exact ⟨hp, (paint_keeps_pattern _ _ _).2.2.2 hp⟩

end PatternAnatomy
