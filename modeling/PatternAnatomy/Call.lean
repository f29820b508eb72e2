import PatternAnatomy.Text.Blank
import PatternAnatomy.Text.Lines

namespace PatternAnatomy

inductive Call.Form where
  /-- Behind an at sign, with quotes doubled and everything else as it is. -/
  | verbatim
  /-- With a backslash before characters that need one. -/
  | regular
deriving DecidableEq

/-- A call in three pieces: up to the quote that opens the literal, the text between the quotes, and
the rest from the closing quote to the closing parenthesis. -/
structure Call where
  form : Call.Form
  lead : Text
  body : Text
  tail : Text
deriving DecidableEq

namespace Call

def text (c : Call) : Text := c.lead ++ c.body ++ c.tail

/-- A way to split a text into a beginning of some form and what follows it. -/
abbrev Splitter := Text → Option (Text × Text)

namespace Splitter

def word (w : Text) : Splitter := fun s => (w.isPrefixOf? s).map fun rest => (w, rest)

def blanks : Splitter := fun s => some (s.takeWhile Text.isBlank, s.dropWhile Text.isBlank)

def oneOf? : List Text → Splitter
  | [] => fun s => some ([], s)
  | w :: ws => fun s => (word w s).or (oneOf? ws s)

def followedBy (p q : Splitter) : Splitter := fun s => do
  let (a, r) ← p s
  let (b, t) ← q r
  return (a ++ b, t)

end Splitter

open Splitter

def qualifiers : List Text :=
  ["System.Text.RegularExpressions.".toList, "global::System.Text.RegularExpressions.".toList]

def header : Splitter :=
  word "new".toList |>.followedBy blanks |>.followedBy (oneOf? qualifiers)
    |>.followedBy (word "Regex".toList) |>.followedBy blanks |>.followedBy (word ['('])
    |>.followedBy blanks

/-- The longest body, up to a quote that has a closing parenthesis behind it. -/
def verbatimBody : Splitter
  | [] => none
  | '"' :: '"' :: r =>
    match verbatimBody r with
    | some (b, t) => some ('"' :: '"' :: b, t)
    | none => if ')' ∈ r then some ([], '"' :: '"' :: r) else none
  | c :: r =>
    if c = '"' then if ')' ∈ r then some ([], c :: r) else none
    else (verbatimBody r).map fun (b, t) => (c :: b, t)

/-- Up to the first quote that no backslash escapes. -/
def regularBody : Splitter
  | [] => none
  | '\\' :: c :: r =>
    if c = '\n' then none else (regularBody r).map fun (b, t) => ('\\' :: c :: b, t)
  | c :: r =>
    if c = '"' then if ')' ∈ r then some ([], c :: r) else none
    else if c = '\\' then none
    else (regularBody r).map fun (b, t) => (c :: b, t)

/-- From the closing quote to the first parenthesis that closes. -/
def closing : Splitter
  | [] => none
  | c :: cs => if c = ')' then some ([c], cs) else (closing cs).map fun (a, r) => (c :: a, r)

def finish (form : Form) (lead : Text) (body : Splitter) (s : Text) : Option (Call × Text) := do
  let (b, t) ← body s
  let (tail, rest) ← closing t
  return (⟨form, lead, b, tail⟩, rest)

/-- The call that a text begins with, and what follows it:

    call    ::= 'new' blank* qualifier? 'Regex' blank* '(' blank* literal [^)]* ')'
    literal ::= '@"' ([^"] | '""')* '"' | '"' ([^"\] | '\' [^newline])* '"' -/
def read? (s : Text) : Option (Call × Text) := do
  let (lead, t) ← header s
  match t with
  | '@' :: '"' :: r => finish .verbatim (lead ++ ['@', '"']) verbatimBody r
  | '"' :: r => finish .regular (lead ++ ['"']) regularBody r
  | _ => none

namespace Splitter

def Splits (p : Splitter) : Prop := ∀ s a r, p s = some (a, r) → s = a ++ r

theorem splits_word (w : Text) : Splits (word w) := by
  intro s a r h
  simp only [word, Option.map_eq_some_iff, Prod.mk.injEq] at h
  obtain ⟨rest, hw, rfl, rfl⟩ := h
  induction w generalizing s with
  | nil => exact Option.some.inj hw
  | cons c w ih =>
    cases s with
    | nil => cases hw
    | cons d s =>
      have hw : (if c == d then w.isPrefixOf? s else none) = some rest := hw
      split at hw
      · next hc => rw [beq_iff_eq.1 hc, List.cons_append, ← ih s hw]
      · simp at hw

theorem splits_blanks : Splits blanks := by
  intro s a r h
  simp only [blanks, Option.some.injEq, Prod.mk.injEq] at h
  obtain ⟨rfl, rfl⟩ := h
  exact List.takeWhile_append_dropWhile.symm

theorem splits_oneOf? (ws : List Text) : Splits (oneOf? ws) := by
  induction ws with
  | nil => intro s a r h; simp_all [oneOf?]
  | cons w ws ih =>
    intro s a r h
    simp only [oneOf?, Option.or_eq_some_iff] at h
    rcases h with h | ⟨_, h⟩
    · exact splits_word w s a r h
    · exact ih s a r h

theorem Splits.followedBy {p q : Splitter} (hp : Splits p) (hq : Splits q) :
    Splits (p.followedBy q) := by
  intro s a r h
  simp only [Splitter.followedBy, Option.bind_eq_bind, Option.bind_eq_some_iff, Prod.exists,
    Option.pure_def, Option.some.injEq, Prod.mk.injEq] at h
  obtain ⟨a, t, ha, b, u, hb, rfl, rfl⟩ := h
  rw [hp _ _ _ ha, hq _ _ _ hb, List.append_assoc]

end Splitter

theorem splits_header : Splits header :=
  ((((((splits_word _).followedBy splits_blanks).followedBy (splits_oneOf? _)).followedBy
    (splits_word _)).followedBy splits_blanks).followedBy (splits_word _)).followedBy splits_blanks

theorem splits_verbatimBody : Splits verbatimBody := by
  intro s
  fun_induction verbatimBody s with
  | case1 => simp
  | case2 r b t hb ih => simp_all
  | case3 r hb hp ih => simp_all
  | case4 r hb hp ih => simp
  | case5 r hn hp => simp_all
  | case6 r hn hp => simp
  | case7 c r hn hc ih =>
    intro a t h
    simp only [Option.map_eq_some_iff, Prod.mk.injEq, Prod.exists] at h
    obtain ⟨b, u, hb, rfl, rfl⟩ := h
    rw [ih b u hb, List.cons_append]

theorem splits_regularBody : Splits regularBody := by
  intro s
  fun_induction regularBody s with
  | case1 => simp
  | case2 r => simp
  | case3 c r hc ih =>
    intro a t h
    simp only [Option.map_eq_some_iff, Prod.mk.injEq, Prod.exists] at h
    obtain ⟨b, u, hb, rfl, rfl⟩ := h
    rw [ih b u hb, List.cons_append, List.cons_append]
  | case4 r hn hp => simp_all
  | case5 r hn hp => simp
  | case6 r hn hq => simp
  | case7 c r hn hq hb ih =>
    intro a t h
    simp only [Option.map_eq_some_iff, Prod.mk.injEq, Prod.exists] at h
    obtain ⟨b, u, hb, rfl, rfl⟩ := h
    rw [ih b u hb, List.cons_append]

theorem splits_closing : Splits closing := by
  intro s
  fun_induction closing s with
  | case1 => simp
  | case2 cs => simp_all
  | case3 c cs hc ih =>
    intro a t h
    simp only [Option.map_eq_some_iff, Prod.mk.injEq, Prod.exists] at h
    obtain ⟨b, u, hb, rfl, rfl⟩ := h
    rw [ih b u hb, List.cons_append]

theorem append_of_finish {form : Form} {lead : Text} {body : Splitter} (hb : Splits body)
    {s rest : Text} {c : Call} (h : finish form lead body s = some (c, rest)) :
    lead ++ s = c.text ++ rest ∧ c.lead = lead := by
  simp only [finish, Option.bind_eq_bind, Option.bind_eq_some_iff, Prod.exists, Option.pure_def,
    Option.some.injEq, Prod.mk.injEq] at h
  obtain ⟨b, t, hbt, tail, r, ht, rfl, rfl⟩ := h
  refine ⟨?_, rfl⟩
  rw [hb _ _ _ hbt, splits_closing _ _ _ ht]
  simp [text]

/-- A call and what follows it are the text they were read from. -/
theorem append_of_read? {s rest : Text} {c : Call} (h : read? s = some (c, rest)) :
    s = c.text ++ rest := by
  simp only [read?, Option.bind_eq_bind, Option.bind_eq_some_iff, Prod.exists] at h
  obtain ⟨lead, t, hl, h⟩ := h
  rw [splits_header _ _ _ hl]
  split at h
  · next r => simpa using (append_of_finish splits_verbatimBody h).1
  · next r => simpa using (append_of_finish splits_regularBody h).1
  · simp at h

theorem lead_ne_nil_of_read? {s rest : Text} {c : Call} (h : read? s = some (c, rest)) :
    c.lead ≠ [] := by
  simp only [read?, Option.bind_eq_bind, Option.bind_eq_some_iff, Prod.exists] at h
  obtain ⟨lead, t, hl, h⟩ := h
  split at h
  · next r => simp [(append_of_finish splits_verbatimBody h).2]
  · next r => simp [(append_of_finish splits_regularBody h).2]
  · simp at h

theorem rest_length_lt {s rest : Text} {c : Call} (h : read? s = some (c, rest)) :
    rest.length < s.length := by
  have hl := List.length_pos_iff.2 (lead_ne_nil_of_read? h)
  rw [append_of_read? h]
  simp only [text, List.length_append]
  omega

/-- The calls of a line from left to right, each with the number of characters before it. After a
call the next one is looked for behind it. -/
def allFrom (offset : Nat) (s : Text) : List (Nat × Call) :=
  match h : read? s with
  | some (c, rest) => (offset, c) :: allFrom (offset + c.text.length) rest
  | none =>
    match s with
    | [] => []
    | _ :: cs => allFrom (offset + 1) cs
termination_by s.length
decreasing_by
  · exact rest_length_lt h
  · simp

structure Found where
  column : Nat
  pattern : Text
deriving DecidableEq

def found (offset : Nat) (c : Call) : Found := ⟨offset + c.lead.length, c.body⟩

def patterns (line : Text) : List Found := (allFrom 0 line).map fun (o, c) => found o c

/-- The patterns of a text, each with the number of lines before its own. -/
def patternsOfLines (source : Text) : List (Nat × Found) :=
  source.lines.zipIdx.flatMap fun (line, i) => (patterns line).map fun f => (i, f)

end Call

end PatternAnatomy
