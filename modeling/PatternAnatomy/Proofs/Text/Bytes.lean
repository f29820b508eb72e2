import Mathlib.Tactic.Common
import PatternAnatomy.Text

namespace PatternAnatomy.Text

variable {t u v w : Text}

/-- The index of the character that begins at a byte of the text, or of its end. -/
def indexOfByte? : Text → Nat → Option Nat
  | _, 0 => some 0
  | [], _ + 1 => none
  | c :: cs, n + 1 =>
    if c.utf8Size ≤ n + 1 then (indexOfByte? cs (n + 1 - c.utf8Size)).map (· + 1) else none

theorem indexOfByte?_byteLength (u v : Text) :
    (u ++ v).indexOfByte? (byteLength u) = some u.length := by
  induction u with
  | nil => cases v <;> rfl
  | cons c u ih =>
    obtain ⟨n, hn⟩ := Nat.exists_eq_succ_of_ne_zero
      (Nat.ne_of_gt (Nat.add_pos_left c.utf8Size_pos (byteLength u)))
    have hrest : n + 1 - c.utf8Size = byteLength u := by omega
    rw [byteLength_cons, hn, List.cons_append, indexOfByte?, if_pos (by omega), hrest, ih]
    rfl

/-- What a text has between two places that are counted in bytes, neither of them inside a
character. -/
def byteSlice? (i j : Nat) (t : Text) : Option Text := do
  let first ← t.indexOfByte? i
  let last ← t.indexOfByte? j
  return (t.take last).drop first

theorem byteSlice?_append (u v w : Text) :
    byteSlice? (byteLength u) (byteLength (u ++ v)) (u ++ v ++ w) = some v := by
  have hfirst : (u ++ v ++ w).indexOfByte? (byteLength u) = some u.length := by
    rw [List.append_assoc]
    exact indexOfByte?_byteLength u (v ++ w)
  rw [byteSlice?, hfirst, indexOfByte?_byteLength]
  show some (((u ++ v ++ w).take (u ++ v).length).drop u.length) = some v
  rw [List.take_left, List.drop_left]

def IsAscii (t : Text) : Prop := ∀ c ∈ t, c.toNat < 128

instance : Decidable (IsAscii t) := inferInstanceAs (Decidable (∀ c ∈ t, c.toNat < 128))

theorem byteLength_of_isAscii (h : IsAscii t) : byteLength t = t.length := by
  induction t with
  | nil => rfl
  | cons c t ih =>
    obtain ⟨hc, ht⟩ := List.forall_mem_cons.1 h
    have hsize : c.utf8Size = 1 := Char.utf8Size_eq_one_iff.2 (Nat.le_of_lt_succ hc)
    rw [byteLength_cons, hsize, ih ht, List.length_cons, Nat.add_comm]

/-- Between ASCII characters every place is one between characters. -/
theorem byteSlice?_of_isAscii (h : IsAscii (u ++ v ++ w)) :
    byteSlice? u.length (u ++ v).length (u ++ v ++ w) = some v := by
  have huv : IsAscii (u ++ v) := fun c hc => h c (List.mem_append_left w hc)
  have hu : IsAscii u := fun c hc => huv c (List.mem_append_left v hc)
  rw [← byteLength_of_isAscii huv, ← byteLength_of_isAscii hu]
  exact byteSlice?_append u v w

end PatternAnatomy.Text
