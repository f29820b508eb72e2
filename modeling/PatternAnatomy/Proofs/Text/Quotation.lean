import Mathlib.Logic.Function.Defs
import PatternAnatomy.Text.Quoted

namespace PatternAnatomy.Text

open Function

theorem toDigits_injective {base : Nat} (hbase : 1 < base) (hle : base ≤ 16) :
    Injective (Nat.toDigits base) := by
  have hdigit : ∀ a < 16, ∀ b < 16, Nat.digitChar a = Nat.digitChar b → a = b := by decide
  intro n
  induction n using Nat.strongRecOn with
  | ind n ih =>
    intro m h
    rw [Nat.toDigits_eq_if hbase, Nat.toDigits_eq_if (n := m) hbase] at h
    split at h <;> split at h
    next hn hm => exact hdigit n (by omega) m (by omega) (List.singleton_inj.1 h)
    next hn hm =>
      have hlength := congrArg List.length h
      have hpos := Nat.length_toDigits_pos (b := base) (n := m / base)
      simp only [List.length_singleton, List.length_append] at hlength
      omega
    next hn hm =>
      have hlength := congrArg List.length h
      have hpos := Nat.length_toDigits_pos (b := base) (n := n / base)
      simp only [List.length_singleton, List.length_append] at hlength
      omega
    next hn hm =>
      obtain ⟨hdiv, hmod⟩ := List.append_inj' h rfl
      have hlt : n / base < n := Nat.div_lt_self (by omega) hbase
      have hn' := Nat.mod_lt n (Nat.zero_lt_of_lt hbase)
      have hm' := Nat.mod_lt m (Nat.zero_lt_of_lt hbase)
      have hlast := hdigit _ (by omega) _ (by omega) (List.singleton_inj.1 hmod)
      rw [← Nat.div_add_mod n base, ih _ hlt hdiv, hlast, Nat.div_add_mod]

/-- Control characters that a letter stands for behind a backslash. -/
def lettered : List (Char × Char) := [('\x00', '0'), ('\t', 't'), ('\r', 'r'), ('\n', 'n')]

inductive Escape (quote c : Char) : Text → Prop where
  | plain (hc : c ≠ '\\') : Escape quote c [c]
  | guarded (hc : c = quote ∨ c = '\\') : Escape quote c ['\\', c]
  | letter {l : Char} (hl : (c, l) ∈ lettered) : Escape quote c ['\\', l]
  | number : Escape quote c ('\\' :: 'u' :: '{' :: (Nat.toDigits 16 c.toNat ++ ['}']))

theorem escape_escaped (quote c : Char) : Escape quote c (escaped quote c) := by
  unfold escaped
  split
  · next h => exact .guarded h
  next hc =>
    split
    · next h => exact .letter (by simp [h, lettered])
    split
    · next h => exact .letter (by simp [h, lettered])
    split
    · next h => exact .letter (by simp [h, lettered])
    split
    · next h => exact .letter (by simp [h, lettered])
    split
    · exact .number
    · exact .plain fun h => hc (.inr h)

/-- What a character is written as tells the character. -/
theorem Escape.unique {quote c d : Char} {v : Text} (hquote : ∀ x ∈ lettered, x.2 ≠ quote)
    (h : Escape quote c v) (h' : Escape quote d v) : c = d := by
  have hletter : ∀ x ∈ lettered, ∀ y ∈ lettered, x.2 = y.2 → x.1 = y.1 := by decide
  have hguarded : ∀ {c l d}, c = quote ∨ c = '\\' → (d, l) ∈ lettered → c ≠ l := by
    rintro c l d (rfl | rfl) hl rfl
    · exact hquote _ hl rfl
    · revert hl
      simp [lettered]
  cases h with
  | plain hc =>
    cases h' with
    | plain => rfl
  | guarded hc =>
    cases h' with
    | guarded => rfl
    | letter hl => exact absurd rfl (hguarded hc hl)
  | letter hl =>
    cases h' with
    | guarded hd => exact absurd rfl (hguarded hd hl)
    | letter hl' => exact hletter _ hl _ hl' rfl
  | number =>
    generalize hv : '\\' :: 'u' :: '{' :: (Nat.toDigits 16 c.toNat ++ ['}']) = v at h'
    cases h' with
    | number =>
      have hbody := (List.cons.inj (List.cons.inj (List.cons.inj hv).2).2).2
      have hdigits := List.append_cancel_right hbody
      exact Char.toNat_inj.1 (toDigits_injective (by decide) (by decide) hdigits)
    | _ => cases hv

theorem quotedChar_injective : Injective quotedChar := by
  intro c d h
  have hescaped : escaped '\'' c = escaped '\'' d :=
    List.append_cancel_right (List.cons.inj h).2
  exact Escape.unique (by decide) (escape_escaped '\'' c) (hescaped ▸ escape_escaped '\'' d)

theorem ne_quotedChar {t : Text} {c : Char} (ht : t.head? ≠ some '\'') : t ≠ quotedChar c :=
  fun h => ht (congrArg List.head? h)

end PatternAnatomy.Text
