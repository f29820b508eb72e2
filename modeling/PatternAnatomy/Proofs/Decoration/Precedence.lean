import PatternAnatomy.Proofs.Decoration.Stretches
import PatternAnatomy.Proofs.Span.Overlap

namespace PatternAnatomy

open Decoration Painting

/-- Some character belongs to both. -/
def Decoration.Meets (d e : Decoration) : Prop :=
  ∃ i, d.span.contains i = true ∧ e.span.contains i = true

namespace Painting

/-- Of decorations that are marked with whether they are painted, those which are. -/
def chosen (xs : List (Decoration × Bool)) : List Decoration := (xs.filter Prod.snd).map Prod.fst

/-- Behind decorations of which `kept` are painted, just those are marked that share no character
with one that is painted before them. -/
inductive Choice : List Decoration → List (Decoration × Bool) → Prop where
  | nil {kept} : Choice kept []
  | painted {kept d xs} (hd : ∀ e ∈ kept, ¬ e.Meets d) (h : Choice (d :: kept) xs) :
    Choice kept ((d, true) :: xs)
  | passed {kept d xs} (hd : ∃ e ∈ kept, e.Meets d) (h : Choice kept xs) :
    Choice kept ((d, false) :: xs)

/-- The cursor stands where the last of the decorations `kept` ends. -/
def Reaches (kept : List Decoration) (cursor : Nat) : Prop :=
  ∀ i, i < cursor ↔ ∃ e ∈ kept, i < e.stop

end Painting

variable {p : Text} {palette : Palette} {cursor i j k : Nat} {d e : Decoration}
  {ds kept : List Decoration} {hs : List Span} {x : Decoration × Bool}
  {xs before after : List (Decoration × Bool)}

namespace Decoration

theorem meets_iff (h : d.start ≤ e.start) (he : 0 < e.length) : d.Meets e ↔ e.start < d.stop :=
  Span.meets_iff_of_le (s := d.span) (t := e.span) h he

theorem Laid.gap (hij : i ≤ j) (h : Laid ds hs j k) : Laid ds (.between i j :: hs) i k :=
  .hole ((Span.stop_between hij).symm ▸ h)

end Decoration

namespace Painting

theorem Choice.painted_iff (h : Choice kept xs) (hx : xs = before ++ x :: after) :
    x.2 = true ↔ (∀ e ∈ kept, ¬ e.Meets x.1) ∧ ∀ y ∈ before, y.2 = true → ¬ y.1.Meets x.1 := by
  induction h generalizing before with
  | nil => exact absurd hx.symm (List.append_ne_nil_of_right_ne_nil _ (List.cons_ne_nil _ _))
  | painted hd _ ih =>
    rcases List.cons_eq_append_iff.1 hx with ⟨rfl, hhere⟩ | ⟨rest, rfl, hrest⟩
    · obtain ⟨rfl, -⟩ := List.cons.inj hhere
      exact iff_of_true rfl ⟨hd, fun _ hy => absurd hy List.not_mem_nil⟩
    · rw [ih hrest, List.forall_mem_cons, List.forall_mem_cons, forall_prop_of_true rfl,
        and_assoc, and_left_comm]
  | passed hd _ ih =>
    rcases List.cons_eq_append_iff.1 hx with ⟨rfl, hhere⟩ | ⟨rest, rfl, hrest⟩
    · obtain ⟨rfl, -⟩ := List.cons.inj hhere
      obtain ⟨e, he, hmeets⟩ := hd
      exact iff_of_false Bool.false_ne_true fun h => h.1 e he hmeets
    · rw [ih hrest, List.forall_mem_cons]
      simp only [Bool.false_eq_true, false_imp_iff, true_and]

theorem reaches_nil : Reaches [] 0 := by
  intro i
  simp

theorem Reaches.cons (h : Reaches kept cursor) (hd : cursor ≤ d.stop) :
    Reaches (d :: kept) d.stop := by
  intro i
  simp only [List.mem_cons, exists_eq_or_imp, ← h i]
  omega

/-- Behind the starts of all that is painted, the cursor tells whether a decoration meets any. -/
theorem Reaches.start_lt_iff (h : Reaches kept cursor) (hkept : ∀ e ∈ kept, e.start ≤ d.start)
    (hd : 0 < d.length) : d.start < cursor ↔ ∃ e ∈ kept, e.Meets d := by
  rw [h d.start]
  exact exists_congr fun e => and_congr_right fun he => (meets_iff (hkept e he) hd).symm

/-- Painting comes to the same as painting only the decorations that the rule chooses, and these
stand one behind the other from the cursor to the end of the pattern. -/
theorem exists_choice (palette : Palette) (hcursor : Reaches kept cursor) (hc : cursor ≤ p.length)
    (hkept : ∀ e ∈ kept, ∀ d ∈ ds, e.start ≤ d.start)
    (hds : ∀ d ∈ ds, 0 < d.length ∧ d.stop ≤ p.length)
    (hstarts : ds.Pairwise fun d e => d.start ≤ e.start) :
    ∃ xs hs, xs.map Prod.fst = ds ∧ Choice kept xs ∧ Laid (chosen xs) hs cursor p.length ∧
      paintFrom palette true cursor (p.drop cursor) ds =
        paintFrom palette true cursor (p.drop cursor) (chosen xs) := by
  -- Along the loop: the cursor and what is painted so far move on together.
  induction ds generalizing cursor kept with
  | nil => exact ⟨[], [.between cursor p.length], rfl, .nil, .gap hc .nil, rfl⟩
  | cons d ds ih =>
    obtain ⟨⟨hlength, hstop⟩, hds⟩ := List.forall_mem_cons.1 hds
    obtain ⟨hd, hstarts⟩ := List.pairwise_cons.1 hstarts
    have hbefore : ∀ e ∈ kept, e.start ≤ d.start := fun e he => hkept e he d List.mem_cons_self
    have hbehind : ∀ e ∈ kept, ∀ b ∈ ds, e.start ≤ b.start :=
      fun e he b hb => hkept e he b (List.mem_cons_of_mem d hb)
    have hmeets := hcursor.start_lt_iff hbefore hlength
    by_cases hlt : d.start < cursor
    · obtain ⟨xs, hs, rfl, hchoice, hlaid, hpaint⟩ := ih hcursor hc hbehind hds hstarts
      refine ⟨(d, false) :: xs, hs, rfl, .passed (hmeets.1 hlt) hchoice, hlaid, ?_⟩
      rw [paintFrom, if_pos hlt]
      exact hpaint
    · have hle := Nat.le_of_not_lt hlt
      have hreaches := hcursor.cons (d := d) (Nat.le_trans hle (Nat.le_add_right _ _))
      have hkept' := List.forall_mem_cons.2 ⟨hd, hbehind⟩
      obtain ⟨xs, hs, rfl, hchoice, hlaid, hpaint⟩ := ih hreaches hstop hkept' hds hstarts
      have hno : ∀ e ∈ kept, ¬ e.Meets d := fun e he h => hlt (hmeets.2 ⟨e, he, h⟩)
      have hchosen : chosen ((d, true) :: xs) = d :: chosen xs := rfl
      refine ⟨(d, true) :: xs, _, rfl, .painted hno hchoice,
        .gap hle (.decoration hlength hlaid), ?_⟩
      rw [hchosen, paintFrom_cons hc hle, paintFrom_cons hc hle, Nat.min_eq_left hstop, hpaint]

end Painting

/-- Of decorations in the order of their starts just those are painted, each in its color and at its
place, that share no character with one painted before them. -/
theorem paint_passes_over_overlaps (hpalette : ∀ kind, (palette.colorOf kind).isSome = true)
    (hds : ∀ d ∈ ds, 0 < d.length ∧ d.stop ≤ p.length)
    (hstarts : ds.Pairwise fun d e => d.start ≤ e.start) :
    ∃ (xs : List (Decoration × Bool)) (ss : List Stretch), xs.map Prod.fst = ds ∧
      Span.Tiled 0 (ss.map Stretch.span) 0 p.length ∧
      ss.filterMap Stretch.decoration? = chosen xs ∧
      paint p ds palette true = ss.flatMap (Stretch.painted p palette) ∧
      (∀ d, ∃ c, palette.colorOf d.kind = some c ∧
        (Stretch.decorated d).painted p palette = onBackground c (d.covered p)) ∧
      (∀ before x after, xs = before ++ x :: after →
        (x.2 = true ↔ ∀ y ∈ before, y.2 = true → ¬ y.1.Meets x.1)) ∧
      (chosen xs).Pairwise (fun d e => ¬ d.Meets e) ∧
      (∀ x, xs.head? = some x → x.2 = true) ∧
      ∀ before x after, xs = before ++ x :: after → x.2 = false →
        ∃ y ∈ before, y.2 = true ∧ y.1.Meets x.1 := by
  obtain ⟨xs, hs, hxs, hchoice, hlaid, hpaint⟩ := exists_choice palette reaches_nil (Nat.zero_le _)
    (fun _ he => absurd he List.not_mem_nil) hds hstarts
  obtain ⟨ss, htiled, hdecorations, -⟩ := hlaid.exists_stretches
  have hrule : ∀ before x after, xs = before ++ x :: after →
      (x.2 = true ↔ ∀ y ∈ before, y.2 = true → ¬ y.1.Meets x.1) := by
    intro before x after hx
    rw [hchoice.painted_iff hx]
    exact and_iff_right fun _ he => absurd he List.not_mem_nil
  refine ⟨xs, ss, hxs, htiled, hdecorations, ?_, ?_, hrule, ?_, ?_, ?_⟩
  · rw [← paintFrom_stretches htiled, hdecorations]
    exact hpaint
  · intro d
    obtain ⟨c, hc⟩ := Option.isSome_iff_exists.1 (hpalette d.kind)
    refine ⟨c, hc, ?_⟩
    rw [Stretch.painted, hc]
  · -- What is painted stands one behind the other.
    refine hlaid.cover.ordered.imp ?_
    rintro d e hle ⟨i, hd, he⟩
    have hbehind := (Span.contains_iff.1 hd).2
    have hfrom := (Span.contains_iff.1 he).1
    exact absurd (Nat.lt_of_lt_of_le hbehind hle) (Nat.not_lt.2 hfrom)
  · intro x hx
    obtain ⟨after, rfl⟩ := List.head?_eq_some_iff.1 hx
    exact (hrule [] x after rfl).2 fun _ hy => absurd hy List.not_mem_nil
  · intro before x after hx hpassed
    by_contra hno
    have hfree : ∀ y ∈ before, y.2 = true → ¬ y.1.Meets x.1 :=
      fun y hy hpainted hmeets => hno ⟨y, hy, hpainted, hmeets⟩
    exact Bool.eq_false_iff.1 hpassed ((hrule before x after hx).2 hfree)

/-- A decoration is painted though it shares a character with the one before it, as that one is
passed over. -/
theorem paint_passes_over_crossing : ∃ (ds : List Decoration) (palette : Palette),
    ds = [⟨.literalString, 0, 3⟩, ⟨.escape, 0, 1⟩, ⟨.anyChar, 2, 2⟩, ⟨.digit, 3, 2⟩,
      ⟨.groupEnd, 4, 1⟩] ∧
    (∀ kind, (palette.colorOf kind).isSome = true) ∧
    (∀ d ∈ ds, 0 < d.length ∧ d.stop ≤ "abcdef".toList.length) ∧
    ds.Pairwise (fun d e => d.start ≤ e.start) ∧
    ∃ (xs : List (Decoration × Bool)) (ss : List Stretch), xs.map Prod.fst = ds ∧
      ss.filterMap Stretch.decoration? = chosen xs ∧
      paint "abcdef".toList ds palette true =
        ss.flatMap (Stretch.painted "abcdef".toList palette) ∧
      ∀ before x after, xs = before ++ x :: after →
        (x.2 = true ↔ ∀ y ∈ before, y.2 = true → ¬ y.1.Meets x.1) := by
  have hpalette : ∀ kind, (Palette.colorOf (fun _ => some .red) kind).isSome = true := fun _ => rfl
  obtain ⟨ds, hlist⟩ : ∃ ds : List Decoration, ds = [⟨.literalString, 0, 3⟩, ⟨.escape, 0, 1⟩,
    ⟨.anyChar, 2, 2⟩, ⟨.digit, 3, 2⟩, ⟨.groupEnd, 4, 1⟩] := ⟨_, rfl⟩
  have hds : ∀ d ∈ ds, 0 < d.length ∧ d.stop ≤ "abcdef".toList.length := by
    rw [hlist]
    decide
  have hstarts : ds.Pairwise fun d e => d.start ≤ e.start := by
    rw [hlist]
    decide
  refine ⟨ds, _, hlist, hpalette, hds, hstarts, ?_⟩
  obtain ⟨xs, ss, hxs, -, hss, hpaint, -, hrule, -⟩ :=
    paint_passes_over_overlaps hpalette hds hstarts
  exact ⟨xs, ss, hxs, hss, hpaint, hrule⟩

example : paint "abcdef".toList [⟨.literalString, 0, 3⟩, ⟨.escape, 0, 1⟩, ⟨.anyChar, 2, 2⟩,
    ⟨.digit, 3, 2⟩, ⟨.groupEnd, 4, 1⟩] (fun _ => some .red) true =
      "\x1b[48;5;9mabc\x1b[49m\x1b[48;5;9mde\x1b[49mf".toList := by
  decide +kernel

end PatternAnatomy
