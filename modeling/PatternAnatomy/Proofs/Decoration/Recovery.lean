import PatternAnatomy.Decoration.Listing
import PatternAnatomy.Proofs.Reading.Acceptance
import PatternAnatomy.Proofs.Text.OneLine
import PatternAnatomy.Proofs.Text.Quotation

namespace PatternAnatomy

open Function

variable {α : Type} {write : α → Text}

namespace Text

/-- A text that `write` begins tells what is written and where that ends, with anything behind it
that `Behind` allows. -/
def Delimits (write : α → Text) (Behind : Text → Prop) : Prop :=
  ∀ ⦃a b : α⦄ ⦃u v : Text⦄, Behind u → Behind v → write a ++ u = write b ++ v → a = b ∧ u = v

/-- A run of characters of one kind ends where another one comes. -/
def EndsRun (test : Char → Bool) (u : Text) : Prop := ∀ c, u.head? = some c → test c = false

theorem endsRun_append {test : Char → Bool} {s : Text} (hs : s.head?.any (!test ·) = true)
    (u : Text) : EndsRun test (s ++ u) := by
  cases s with
  | nil => cases hs
  | cons c s =>
    rintro d ⟨⟩
    exact Bool.not_eq_eq_eq_not.1 hs

theorem delimits_run {test : Char → Bool} (hrun : ∀ a, ∀ c ∈ write a, test c = true)
    (hwrite : Injective write) : Delimits write (EndsRun test) := by
  intro a b u v hu hv h
  have hab : write a = write b := run_unique (hrun a) (hrun b) hu hv h
  exact ⟨hwrite hab, List.append_cancel_left (hab ▸ h)⟩

theorem delimits_ofNat : Delimits ofNat (EndsRun Char.isDigit) :=
  delimits_run (fun _ _ hc => Nat.isDigit_of_mem_toDigits (by decide) (by decide) hc)
    (toDigits_injective (by decide) (by decide))

theorem delimits_of_append_eq (h : ∀ ⦃a b : α⦄ ⦃u v : Text⦄, write a ++ u = write b ++ v → a = b) :
    Delimits write fun _ => True := by
  intro a b u v _ _ heq
  obtain rfl := h heq
  exact ⟨rfl, List.append_cancel_left heq⟩

/-- What is written one behind the other up to a known end comes apart again, if that end cannot
be taken for more of it. -/
theorem Delimits.flatMap_append_inj (h : Delimits write fun _ => True) {stop : Text}
    (hstop : ∀ a u, write a ++ u ≠ stop) {as bs : List α}
    (heq : as.flatMap write ++ stop = bs.flatMap write ++ stop) : as = bs := by
  -- The first of either list ends at the same place, since each text tells where it ends.
  induction as generalizing bs with
  | nil =>
    cases bs with
    | nil => rfl
    | cons b bs =>
      rw [List.flatMap_cons, List.append_assoc] at heq
      exact absurd heq.symm (hstop b _)
  | cons a as ih =>
    rw [List.flatMap_cons, List.append_assoc] at heq
    cases bs with
    | nil => exact absurd heq (hstop a _)
    | cons b bs =>
      rw [List.flatMap_cons, List.append_assoc] at heq
      obtain ⟨rfl, hrest⟩ := h trivial trivial heq
      rw [ih hrest]

theorem joined_cons (separator t : Text) (ts : List Text) :
    joined separator (t :: ts) = t ++ ts.flatMap (separator ++ ·) := by
  induction ts generalizing t with
  | nil => exact (List.append_nil t).symm
  | cons u us ih =>
    rw [joined, ih, List.flatMap_cons, List.append_assoc, List.append_assoc]
    exact List.cons_ne_nil u us

theorem Delimits.joined_append_inj (h : Delimits write fun _ => True) {separator stop : Text}
    (hstop : ¬ separator <+: stop) {a b : α} {as bs : List α}
    (heq : joined separator ((a :: as).map write) ++ stop =
      joined separator ((b :: bs).map write) ++ stop) : a :: as = b :: bs := by
  have hnext : Delimits (fun c => separator ++ write c) fun _ => True := by
    intro c d u v hu hv hcd
    rw [List.append_assoc, List.append_assoc] at hcd
    exact h hu hv (List.append_cancel_left hcd)
  have hend : ∀ c u, separator ++ write c ++ u ≠ stop := by
    rintro c u rfl
    rw [List.append_assoc] at hstop
    exact hstop (List.prefix_append _ _)
  simp only [List.map_cons, joined_cons, List.flatMap_map, List.append_assoc] at heq
  obtain ⟨rfl, hrest⟩ := h trivial trivial heq
  rw [hnext.flatMap_append_inj hend hrest]

end Text

namespace Decoration

open Text

variable {d e : Decoration} {p u v : Text}

theorem Kind.ofName?_name (k : Kind) : ofName? k.name = some k := by
  cases k <;> decide

theorem Kind.name_injective : Injective Kind.name := by
  intro k l h
  have hname := congrArg Kind.ofName? h
  rw [ofName?_name, ofName?_name] at hname
  exact Option.some.inj hname

theorem Kind.isAlpha_of_mem_name (k : Kind) : ∀ c ∈ k.name, c.isAlpha = true := by
  cases k <;> exact List.all_eq_true.1 rfl

theorem Kind.delimits_name : Delimits Kind.name (EndsRun Char.isAlpha) :=
  delimits_run Kind.isAlpha_of_mem_name Kind.name_injective

theorem Kind.oneLine_name (k : Kind) : OneLine k.name :=
  fun h => absurd (k.isAlpha_of_mem_name _ h) (by decide)

theorem delimits_jsonObject : Delimits jsonObject fun _ => True := by
  apply delimits_of_append_eq
  intro d e u v (h : d.jsonObject ++ u = e.jsonObject ++ v)
  delta jsonObject at h
  simp only [List.append_assoc] at h
  obtain ⟨hkind, h⟩ := Kind.delimits_name (endsRun_append (by decide) _)
    (endsRun_append (by decide) _) (List.append_cancel_left h)
  obtain ⟨hstart, h⟩ := delimits_ofNat (endsRun_append (by decide) _)
    (endsRun_append (by decide) _) (List.append_cancel_left h)
  obtain ⟨hlength, -⟩ := delimits_ofNat (endsRun_append (by decide) _)
    (endsRun_append (by decide) _) (List.append_cancel_left h)
  cases d
  cases e
  cases hkind
  cases hstart
  cases hlength
  rfl

theorem delimits_listingLine (p : Text) : Delimits (listingLine p true) fun _ => True := by
  apply delimits_of_append_eq
  intro d e u v h
  simp only [listingLine, Span.render, if_true, List.append_assoc] at h
  obtain ⟨hstart, h⟩ := delimits_ofNat (endsRun_append (by decide) _)
    (endsRun_append (by decide) _) h
  obtain ⟨hstop, h⟩ := delimits_ofNat (endsRun_append (by decide) _)
    (endsRun_append (by decide) _) (List.append_cancel_left h)
  obtain ⟨hkind, -⟩ := Kind.delimits_name (endsRun_append (by rfl) _)
    (endsRun_append (by rfl) _) (List.append_cancel_left h)
  cases d with
  | mk kind start length =>
    cases e with
    | mk kind' start' length' =>
      have hlength : start + length = start' + length' := hstop
      obtain rfl : start = start' := hstart
      obtain rfl : kind = kind' := hkind
      rw [Nat.add_left_cancel hlength]

theorem exists_listingLine_eq (p : Text) (showOffsets : Bool) (d : Decoration) :
    ∃ t, OneLine t ∧ listingLine p showOffsets d = t ++ ['\n'] := by
  refine ⟨_, ?_, rfl⟩
  have hoffsets : OneLine (if showOffsets then d.span.render ++ [' '] else []) := by
    cases showOffsets
    · exact List.not_mem_nil
    · exact oneLine_append.2 ⟨oneLine_render d.span, by decide⟩
  have hcovered : OneLine (' ' :: quoted (d.covered p)) :=
    oneLine_cons.2 ⟨by decide, oneLine_quoted _⟩
  exact oneLine_append.2 ⟨oneLine_append.2 ⟨hoffsets, d.kind.oneLine_name⟩, hcovered⟩

theorem count_listingLine (p : Text) (showOffsets : Bool) (d : Decoration) :
    (listingLine p showOffsets d).count '\n' = 1 := by
  obtain ⟨t, ht, heq⟩ := exists_listingLine_eq p showOffsets d
  rw [heq, List.count_append, List.count_eq_zero.2 ht]
  rfl

end Decoration

open Decoration

theorem listing_injective (p : Text) : Injective fun ds => listing p ds true := by
  intro ds es h
  have hnil : ∀ d u, listingLine p true d ++ u ≠ [] := by
    intro d u hnil
    have hcount := count_listingLine p true d
    rw [(List.append_eq_nil_iff.1 hnil).1] at hcount
    cases hcount
  refine (delimits_listingLine p).flatMap_append_inj hnil ?_
  rw [List.append_nil, List.append_nil]
  exact h

theorem json_nil_ne_json_cons (d : Decoration) (ds : List Decoration) :
    json [] ≠ json (d :: ds) := by
  intro h
  have hstart : "[]".toList = "[\n".toList := congrArg (List.take 2) h
  exact absurd hstart (by decide)

theorem json_injective : Injective json := by
  intro ds es h
  cases ds with
  | nil =>
    cases es with
    | nil => rfl
    | cons e es => exact absurd h (json_nil_ne_json_cons e es)
  | cons d ds =>
    cases es with
    | nil => exact absurd h.symm (json_nil_ne_json_cons d ds)
    | cons e es =>
      simp only [json, List.isEmpty_cons, Bool.false_eq_true, if_false, List.append_assoc] at h
      exact delimits_jsonObject.joined_append_inj (by decide) (List.append_cancel_left h)

/-- No two lists of decorations are listed alike with their offsets, nor written alike as JSON; and
a listing has one line for each of them, whatever characters they cover. -/
theorem listing_json_lossless :
    (∀ p, Injective fun ds => listing p ds true) ∧ Injective json ∧
      ∀ p ds showOffsets, (listing p ds showOffsets).count '\n' = ds.length := by
  refine ⟨listing_injective, json_injective, fun p ds showOffsets => ?_⟩
  induction ds with
  | nil => rfl
  | cons d ds ih =>
    rw [listing, List.flatMap_cons, List.count_append, count_listingLine, List.length_cons,
      Nat.add_comm]
    exact congrArg (· + 1) ih

end PatternAnatomy
