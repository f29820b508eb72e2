import PatternAnatomy.Failure
import PatternAnatomy.Node.Decorations
import PatternAnatomy.Proofs.Reading.Renaming

namespace PatternAnatomy

open Grammar

def Item.renamed (f : Char → Char) : Item → Item
  | single c s => single (f c) s
  | range a b s => range (f a) (f b) s

namespace Node

mutual

def renamed (f : Char → Char) : Node → Node
  | verbatim v s => verbatim (v.map f) s
  | special kind s => special kind s
  | charList is negated s => charList (is.map (Item.renamed f)) negated s
  | quantifier r s => quantifier r s
  | group cs nonCapturing name s => group (renamedAll f cs) nonCapturing (name.map (List.map f)) s
  | alternation bs s => alternation (renamedAll f bs) s

def renamedAll (f : Char → Char) : List Node → List Node
  | [] => []
  | n :: ns => n.renamed f :: renamedAll f ns

end

variable {f : Char → Char}

theorem renamedAll_eq_map (ns : List Node) : renamedAll f ns = ns.map (renamed f) := by
  induction ns with
  | nil => rfl
  | cons n ns ih => rw [renamedAll, ih, List.map_cons]

theorem renamedAll_flatten (runs : List (List Node)) :
    renamedAll f runs.flatten = (runs.map (renamedAll f)).flatten := by
  have hmap : renamedAll f = List.map (renamed f) := funext renamedAll_eq_map
  rw [hmap, List.map_flatten]

theorem renamed_branches (atoms : List Node) (s : Span) :
    (branches atoms s).renamed f = branches (atoms.map (renamed f)) s := by
  rcases atoms with _ | ⟨a, _ | ⟨b, atoms⟩⟩
  · rfl
  · rfl
  · show Node.alternation (renamedAll f (a :: b :: atoms)) s = _
    rw [renamedAll_eq_map]
    rfl

@[simp] theorem span_renamed (n : Node) : (n.renamed f).span = n.span := by
  cases n <;> rfl

theorem decorations_map_renamed (is : List Item) :
    (is.map (Item.renamed f)).flatMap Item.decorations = is.flatMap Item.decorations := by
  rw [List.flatMap_map]
  congr 1
  funext i
  cases i <;> rfl

mutual

theorem decorations_renamed : ∀ n : Node, (n.renamed f).decorations = n.decorations
  | verbatim .. | special .. | quantifier .. => rfl
  | charList is _ _ => by
    simp only [renamed, decorations, decorations_map_renamed]
  | group cs _ _ _ => by
    simp only [renamed, decorations, decorationsAll_renamedAll cs]
  | alternation bs _ => by
    simp only [renamed, decorations, decorationsBarred_renamedAll bs]

theorem decorationsAll_renamedAll : ∀ ns : List Node,
    decorationsAll (renamedAll f ns) = decorationsAll ns
  | [] => rfl
  | n :: ns => by
    simp only [renamedAll, decorationsAll, decorations_renamed n, decorationsAll_renamedAll ns]

theorem decorationsBarred_renamedAll : ∀ bs : List Node,
    decorationsBarred (renamedAll f bs) = decorationsBarred bs
  | [] => rfl
  | b :: bs => by
    simp only [renamedAll, decorationsBarred, decorations_renamed b, span_renamed,
      decorationsBarred_renamedAll bs]
    cases bs <;> rfl

end

end Node

/-- Whether a character means something in some place of a pattern. -/
def IsSign (c : Char) : Prop :=
  c ∈ significant ∨ c ∈ [']', '-', '}', ',', ':', '<', '>'] ∨ c.isDigit = true

instance : DecidablePred IsSign := fun c =>
  inferInstanceAs (Decidable (c ∈ significant ∨ c ∈ [']', '-', '}', ',', ':', '<', '>'] ∨
    c.isDigit = true))

/-- Renamings that no rule of the grammar notices. -/
structure KeepsSigns (f : Char → Char) : Prop where
  sign : ∀ c, IsSign c → f c = c
  plain : ∀ c, ¬ IsSign c → ¬ IsSign (f c)

namespace KeepsSigns

variable {f : Char → Char} {c d : Char}

theorem eq_iff (hf : KeepsSigns f) (hd : IsSign d) : f c = d ↔ c = d := by
  constructor
  · intro h
    by_cases hc : IsSign c
    · rw [← hf.sign c hc, h]
    · exact absurd (h ▸ hd) (hf.plain c hc)
  · intro h
    rw [h, hf.sign d hd]

theorem mem_significant_iff (hf : KeepsSigns f) : f c ∈ significant ↔ c ∈ significant := by
  by_cases hc : IsSign c
  · rw [hf.sign c hc]
  · have hplain := hf.plain c hc
    exact iff_of_false (fun h => hplain (.inl h)) fun h => hc (.inl h)

theorem isDigit_eq (hf : KeepsSigns f) : (f c).isDigit = c.isDigit := by
  by_cases hc : IsSign c
  · rw [hf.sign c hc]
  · have hplain := hf.plain c hc
    rw [Bool.eq_iff_iff]
    exact iff_of_false (fun h => hplain (.inr (.inr h))) fun h => hc (.inr (.inr h))

end KeepsSigns

namespace Grammar

open Reader

section

variable {f : Char → Char} (hf : KeepsSigns f)

include hf

theorem mirrors_sign_char {c : Char} (hc : IsSign c) : Mirrors f id (char c) (char c) :=
  mirrors_char fun _ => hf.eq_iff hc

theorem mirrors_sign_text {v : Text} (hv : (v.all fun c => IsSign c) = true) :
    Mirrors f id (exactly v) (exactly v) := by
  apply mirrors_exactly
  intro c hc d
  exact hf.eq_iff (of_decide_eq_true (List.all_eq_true.1 hv c hc))

theorem mirrors_charExcept {c : Char} (hc : IsSign c) :
    Mirrors f f (charExcept c) (charExcept c) := by
  apply mirrors_satisfying
  intro d
  simp only [ne_eq, hf.eq_iff hc]

theorem mirrors_verbatim : Mirrors f (Node.renamed f) verbatim verbatim := by
  have hplain : Mirrors f f (charOutside significant) (charOutside significant) := by
    apply mirrors_satisfying
    intro c
    simp only [hf.mem_significant_iff]
  apply Mirrors.within
  apply Mirrors.spanned
  exact hplain.many1.bind fun _ => mirrors_pure rfl

theorem mirrors_anyCharacter : Mirrors f (Node.renamed f) anyCharacter anyCharacter := by
  apply Mirrors.within
  apply Mirrors.spanned
  exact (mirrors_sign_char hf (by decide)).bind fun _ => mirrors_pure rfl

theorem mirrors_escape : Mirrors f (Node.renamed f) escape escape := by
  apply Mirrors.within
  apply Mirrors.spanned
  exact (mirrors_sign_char hf (by decide)).bind fun _ => mirrors_pure rfl

theorem mirrors_range : Mirrors f (Item.renamed f) range range := by
  apply Mirrors.within
  apply Mirrors.spanned
  refine mirrors_anyChar.bind fun first => ?_
  refine (mirrors_sign_char hf (by decide)).bind fun _ => ?_
  exact mirrors_anyChar.bind fun last => mirrors_pure rfl

theorem mirrors_item : Mirrors f (Item.renamed f) item item := by
  apply (mirrors_range hf).orElse
  apply Mirrors.spanned
  exact (mirrors_charExcept hf (by decide)).bind fun value => mirrors_pure rfl

theorem mirrors_charList : Mirrors f (Node.renamed f) charList charList := by
  apply Mirrors.within
  apply Mirrors.spanned
  refine (mirrors_sign_char hf (by decide)).bind fun _ => ?_
  refine (mirrors_sign_char hf (by decide)).optional.bind fun caret => ?_
  refine (mirrors_item hf).many1.bind fun items => ?_
  refine (mirrors_sign_char hf (by decide)).bind fun _ => ?_
  rw [Option.map_id]
  exact mirrors_pure rfl

/-- The digits of a count are the same in either text, and so is its value. -/
theorem mirrors_count : Mirrors f id count count := by
  have hdigits : Mirrors f (List.map f) digits digits :=
    (mirrors_satisfying fun _ => hf.isDigit_eq).many1
  intro s
  rw [count, count]
  cases hs : digits s with
  | stuck o =>
    rw [hdigits.of_stuck hs]
    rfl
  | accepted ds t passed =>
    have hds : ds.map f = ds := by
      obtain ⟨-, -, hdigit, -⟩ := accepts_many1_satisfying.1 ⟨passed, hs⟩
      rw [List.map_congr_left fun d hd => hf.sign d (.inr (.inr (hdigit d hd))), List.map_id']
    rw [hdigits.of_accepted hs, hds]
    show (if _ then _ else _) = Outcome.renamed f id (if _ then _ else _)
    split <;> rfl

theorem mirrors_bounds : Mirrors f id bounds bounds := by
  have hcount : Mirrors f id (optional count) (optional count) := by
    rw [← Option.map_id]
    exact (mirrors_count hf).optional
  refine (mirrors_sign_char hf (by decide)).bind fun _ => ?_
  refine hcount.bind fun min => ?_
  refine (mirrors_sign_char hf (by decide)).bind fun _ => ?_
  refine hcount.bind fun max => ?_
  exact (mirrors_sign_char hf (by decide)).bind fun _ => mirrors_pure rfl

theorem mirrors_sign {v : Text} (hv : (v.all fun c => IsSign c) = true) (r : Repetition) :
    Mirrors f id (sign v r) (sign v r) :=
  (mirrors_sign_text hf hv).bind fun _ => mirrors_pure rfl

theorem mirrors_quantifier : Mirrors f (Node.renamed f) quantifier quantifier := by
  apply Mirrors.within
  apply Mirrors.spanned
  refine Mirrors.bind (g := id) ?_ fun repetition => mirrors_pure rfl
  apply (mirrors_sign hf (by decide) _).orElse
  apply (mirrors_sign hf (by decide) _).orElse
  apply (mirrors_sign hf (by decide) _).orElse
  apply (mirrors_sign hf (by decide) _).orElse
  apply (mirrors_sign hf (by decide) _).orElse
  exact mirrors_bounds hf

theorem mirrors_groupName : Mirrors f (List.map f) groupName groupName := by
  apply Mirrors.within
  refine (mirrors_sign_text hf (by decide)).bind fun _ => ?_
  refine (mirrors_charExcept hf (by decide)).many1.bind fun name => ?_
  exact (mirrors_sign_char hf (by decide)).bind fun _ => mirrors_pure rfl

variable {R : Reader (List Node)} (hR : Mirrors f (Node.renamedAll f) R R)

include hR

theorem mirrors_group : Mirrors f (Node.renamed f) (group R) (group R) := by
  apply Mirrors.within
  apply Mirrors.spanned
  refine (mirrors_sign_char hf (by decide)).bind fun _ => ?_
  refine (mirrors_sign_text hf (by decide)).optional.bind fun marker => ?_
  refine (mirrors_groupName hf).optional.bind fun name => ?_
  refine hR.bind fun children => ?_
  refine (mirrors_sign_char hf (by decide)).bind fun _ => ?_
  rw [Option.map_id]
  exact mirrors_pure rfl

theorem mirrors_atom : Mirrors f (Node.renamed f) (atom R) (atom R) := by
  apply (mirrors_anyCharacter hf).orElse
  apply (mirrors_escape hf).orElse
  apply (mirrors_charList hf).orElse
  apply (mirrors_verbatim hf).orElse
  exact mirrors_group hf hR

theorem mirrors_quantifiable : Mirrors f (Node.renamed f) (quantifiable R) (quantifiable R) := by
  apply Mirrors.spanned
  refine ((mirrors_atom hf hR).separatedBy (mirrors_sign_char hf (by decide))).bind fun atoms => ?_
  -- The span is given to the branches only when all of them are read.
  apply mirrors_pure
  funext s
  exact Node.renamed_branches atoms s

theorem mirrors_quantified : Mirrors f (Node.renamedAll f) (quantified R) (quantified R) := by
  refine (mirrors_quantifiable hf hR).bind fun atom => ?_
  refine (mirrors_quantifier hf).optional.bind fun repetition => ?_
  apply mirrors_pure
  cases repetition <;> rfl

omit hR

theorem mirrors_patternWithin (depth : Nat) :
    Mirrors f (Node.renamedAll f) (patternWithin depth) (patternWithin depth) := by
  induction depth with
  | zero => exact mirrors_pure rfl
  | succ depth ih =>
    refine (mirrors_quantified hf ih).many.bind fun runs => ?_
    apply mirrors_pure
    rw [Node.renamedAll_flatten]

theorem mirrors_whole : Mirrors f (Node.renamedAll f) whole whole := by
  apply Mirrors.complete
  intro s
  -- Both texts are equally long, so that both are given the same depth of nesting.
  rw [pattern, pattern, Place.length_renamed]
  exact mirrors_patternWithin hf _ s

end

end Grammar

section

variable {f : Char → Char} {p : Text}

theorem parse_map_of_ok (hf : KeepsSigns f) {nodes : List Node} (h : parse p = .ok nodes) :
    parse (p.map f) = .ok (Node.renamedAll f nodes) := by
  unfold parse at h ⊢
  have hwhole : whole (.start (p.map f)) = _ := mirrors_whole hf (.start p)
  cases hs : whole (.start p) with
  | accepted ns t passed =>
    rw [hs] at h hwhole
    cases h
    rw [hwhole, Outcome.renamed]
  | stuck o =>
    rw [hs] at h
    cases h

theorem parse_map_of_error (hf : KeepsSigns f) {e : Failure} (h : parse p = .error e) :
    ∃ e', parse (p.map f) = .error e' ∧ e'.position = e.position ∧ e'.expected = e.expected := by
  unfold parse at h ⊢
  have hwhole : whole (.start (p.map f)) = _ := mirrors_whole hf (.start p)
  cases hs : whole (.start p) with
  | accepted ns t passed =>
    rw [hs] at h
    cases h
  | stuck o =>
    rw [hs] at h hwhole
    cases h
    -- Only the message tells what was found.
    exact ⟨(o.renamed f).failure, by rw [hwhole, Outcome.renamed], rfl, rfl⟩

/-- Renaming the characters that the grammar does not name renames those of the tree, and changes
neither where its parts are nor how they are decorated. Nor does it change where a text stops being
a pattern, and for want of what. -/
theorem parse_map (hf : KeepsSigns f) (p : Text) :
    ((∃ ns, parse (p.map f) = .ok ns) ↔ ∃ ns, parse p = .ok ns) ∧
      (∀ ns, parse p = .ok ns → parse (p.map f) = .ok (Node.renamedAll f ns)) ∧
      decorations ((parse? (p.map f)).getD []) = decorations ((parse? p).getD []) ∧
      ∀ e, parse p = .error e → ∃ e', parse (p.map f) = .error e' ∧
        e'.position = e.position ∧ e'.expected = e.expected := by
  refine ⟨?_, fun ns h => parse_map_of_ok hf h, ?_, fun e h => parse_map_of_error hf h⟩
  · cases h : parse p with
    | ok ns => simp [parse_map_of_ok hf h]
    | error e =>
      obtain ⟨e', he', -⟩ := parse_map_of_error hf h
      simp [he']
  · cases h : parse p with
    | ok ns =>
      rw [parse?, parse?, h, parse_map_of_ok hf h]
      exact Node.decorationsAll_renamedAll ns
    | error e =>
      obtain ⟨e', he', -⟩ := parse_map_of_error hf h
      rw [parse?, parse?, h, he']
      rfl

theorem parse_map_accented : KeepsSigns (fun c => if c = 'a' then 'é' else c) ∧
    parse "(?<é>[^é-z]|é)+".toList = .ok [
      .group [.alternation [.charList [.range 'é' 'z' ⟨7, 3⟩] true ⟨5, 6⟩,
        .verbatim ['é'] ⟨12, 1⟩] ⟨5, 8⟩] false (some ['é']) ⟨0, 14⟩,
      .quantifier ⟨1, none, false⟩ ⟨14, 1⟩] := by
  have hf : KeepsSigns (fun c => if c = 'a' then 'é' else c) := by
    constructor
    · intro c hc
      have hne : c ≠ 'a' := by
        rintro rfl
        exact absurd hc (by decide)
      simp [hne]
    · intro c hc
      split
      · decide
      · exact hc
  have hp : parse "(?<a>[^a-z]|a)+".toList = .ok [
      .group [.alternation [.charList [.range 'a' 'z' ⟨7, 3⟩] true ⟨5, 6⟩,
        .verbatim ['a'] ⟨12, 1⟩] ⟨5, 8⟩] false (some ['a']) ⟨0, 14⟩,
      .quantifier ⟨1, none, false⟩ ⟨14, 1⟩] := by
    decide +kernel
  have hmap : "(?<a>[^a-z]|a)+".toList.map (fun c => if c = 'a' then 'é' else c) =
      "(?<é>[^é-z]|é)+".toList := by
    decide +kernel
  have h := (parse_map hf _).2.1 _ hp
  rw [hmap] at h
  exact ⟨hf, h⟩

end

end PatternAnatomy
