import PatternAnatomy.Color
import PatternAnatomy.Proofs.Text.Bytes

namespace PatternAnatomy

variable {a b c : Char} {n : Nat} {t : Text} {x : Color}

namespace Text

/-- The digit that writes `n` in base sixteen, where letters stand in either case. -/
def IsHexDigit (c : Char) (n : Nat) : Prop := n < 16 ∧ c.toLower = Nat.digitChar n

theorem toNat_digitChar (h : n < 16) :
    (Nat.digitChar n).toNat = if n < 10 then 48 + n else 87 + n := by
  decide +revert

theorem toNat_toLower (c : Char) :
    c.toLower.toNat = if 65 ≤ c.toNat ∧ c.toNat ≤ 90 then c.toNat + 32 else c.toNat := by
  have hcapital : (c.val ≥ 'A'.val ∧ c.val ≤ 'Z'.val) ↔ 65 ≤ c.toNat ∧ c.toNat ≤ 90 := Iff.rfl
  unfold Char.toLower
  split
  next h =>
    have hsmall := hcapital.1 h
    rw [if_pos hsmall]
    show (c.val + 32).toNat = c.val.toNat + 32
    have hle : c.val.toNat ≤ 90 := hsmall.2
    rw [UInt32.toNat_add, Nat.mod_eq_of_lt]
    · rfl
    · show c.val.toNat + 32 < 4294967296
      omega
  next h => rw [if_neg (mt hcapital.2 h)]

theorem digitValue?_eq_some_iff : digitValue? c = some n ↔ IsHexDigit c n := by
  have hdigit : IsHexDigit c n ↔
      n < 16 ∧ c.toLower.toNat = if n < 10 then 48 + n else 87 + n := by
    refine and_congr_right fun h => ?_
    rw [← toNat_digitChar h, Char.toNat_inj]
  rw [hdigit, toNat_toLower]
  show (if 48 ≤ c.toNat ∧ c.toNat ≤ 57 then some (c.toNat - 48)
    else if 97 ≤ c.toNat ∧ c.toNat ≤ 102 then some (c.toNat - 97 + 10)
    else if 65 ≤ c.toNat ∧ c.toNat ≤ 70 then some (c.toNat - 65 + 10) else none) = some n ↔ _
  generalize c.toNat = m
  split_ifs <;> simp only [Option.some.injEq, false_iff, not_and] <;> omega

theorem IsHexDigit.toNat_lt (h : IsHexDigit c n) : c.toNat < 128 := by
  have hlt := h.1
  have heq := congrArg Char.toNat h.2
  rw [toNat_toLower, toNat_digitChar hlt] at heq
  split_ifs at heq <;> omega

end Text

open Text

namespace Color

def WritesPlain (a b : Char) (n : Nat) : Prop :=
  ∃ high low, IsHexDigit a high ∧ IsHexDigit b low ∧ n = 16 * high + low

def WritesSigned (a b : Char) (n : Nat) : Prop := a = '+' ∧ IsHexDigit b n

/-- Six characters write a mixture, each part in one of the ways that `W` admits. -/
def Written (W : Char → Char → Nat → Prop) (t : Text) (x : Color) : Prop :=
  ∃ r r' g g' b b' red green blue, t = [r, r', g, g', b, b'] ∧
    W r r' red ∧ W g g' green ∧ W b b' blue ∧ x = rgb red green blue

theorem Written.imp {W W' : Char → Char → Nat → Prop} (h : Written W t x)
    (hW : ∀ a b n, a ∈ t → W a b n → W' a b n) : Written W' t x := by
  obtain ⟨r, r', g, g', b, b', red, green, blue, rfl, hred, hgreen, hblue, hx⟩ := h
  exact ⟨r, r', g, g', b, b', red, green, blue, rfl, hW _ _ _ (by simp) hred,
    hW _ _ _ (by simp) hgreen, hW _ _ _ (by simp) hblue, hx⟩

theorem channel?_eq_some_iff :
    channel? a b = some n ↔ WritesPlain a b n ∨ WritesSigned a b n := by
  have hplus : digitValue? '+' = none := rfl
  unfold channel? WritesPlain WritesSigned
  simp only [← digitValue?_eq_some_iff]
  by_cases ha : a = '+'
  · subst ha
    cases digitValue? b <;> simp [hplus]
  · cases digitValue? b <;> cases digitValue? a <;> simp [ha, eq_comm]

theorem ofMixture?_eq_some_iff :
    ofMixture? t = some x ↔ Written (fun a b n => channel? a b = some n) t x := by
  unfold ofMixture?
  split
  next r r' g g' b b' =>
    simp only [bind, Option.bind_eq_some_iff, pure, Option.some.injEq]
    constructor
    · rintro ⟨red, hred, green, hgreen, blue, hblue, rfl⟩
      exact ⟨r, r', g, g', b, b', red, green, blue, rfl, hred, hgreen, hblue, rfl⟩
    · rintro ⟨_, _, _, _, _, _, red, green, blue, heq, hred, hgreen, hblue, rfl⟩
      cases heq
      exact ⟨red, hred, green, hgreen, blue, hblue, rfl⟩
  next hno =>
    refine iff_of_false (by simp) ?_
    rintro ⟨r, r', g, g', b, b', red, green, blue, rfl, -⟩
    exact hno r r' g g' b b' rfl

/-- A text without the plus sign before it, which cannot stand alone. -/
def withoutPlus : Text → Text
  | '+' :: d :: ds => d :: ds
  | t => t

/-- A number below 256 in base sixteen, with a plus sign before its digits or without. -/
def byteValue? (t : Text) : Option Nat :=
  let digits := withoutPlus t
  if digits ≠ [] ∧ digits.all (isDigitOf 16) = true ∧ numberOf 16 digits < 256 then
    some (numberOf 16 digits)
  else none

/-- A mixture of six bytes, all of them ASCII, with two for each part. The outer `none` stands for a
part that begins or ends inside a character. -/
def ofBytes? (t : Text) : Option (Option Color) :=
  if byteLength t ≠ 6 ∨ ¬ IsAscii t then some none
  else do
    let red ← byteSlice? 0 2 t
    let green ← byteSlice? 2 4 t
    let blue ← byteSlice? 4 6 t
    return do return rgb (← byteValue? red) (← byteValue? green) (← byteValue? blue)

theorem isDigitOf_eq : isDigitOf 16 c = (digitValue? c).isSome := by
  unfold isDigitOf
  cases h : digitValue? c with
  | none => rfl
  | some v => simpa using (digitValue?_eq_some_iff.1 h).1

theorem withoutPlus_pair (ha : a ≠ '+') : withoutPlus [a, b] = [a, b] := by
  unfold withoutPlus
  split
  next h => exact absurd (List.cons.inj h).1 ha
  next => rfl

theorem byteValue?_pair (a b : Char) : byteValue? [a, b] = channel? a b := by
  by_cases ha : a = '+'
  · subst ha
    have hrest : withoutPlus ['+', b] = [b] := rfl
    cases hb : digitValue? b with
    | none => simp [byteValue?, channel?, hrest, isDigitOf_eq, hb]
    | some low =>
      have hlow := (digitValue?_eq_some_iff.1 hb).1
      have hsmall : low < 256 := by omega
      simp [byteValue?, channel?, hrest, isDigitOf_eq, hb, numberOf, hsmall]
  · cases hb : digitValue? b with
    | none => simp [byteValue?, channel?, withoutPlus_pair ha, isDigitOf_eq, hb]
    | some low =>
      cases hhigh : digitValue? a with
      | none => simp [byteValue?, channel?, withoutPlus_pair ha, isDigitOf_eq, hb, hhigh, ha]
      | some high =>
        have hlow := (digitValue?_eq_some_iff.1 hb).1
        have hhigh16 := (digitValue?_eq_some_iff.1 hhigh).1
        have hsmall : 16 * high + low < 256 := by omega
        simp [byteValue?, channel?, withoutPlus_pair ha, isDigitOf_eq, hb, hhigh, ha, numberOf,
          hsmall]

theorem toNat_lt_of_channel? (h : channel? a b = some n) : a.toNat < 128 ∧ b.toNat < 128 := by
  rcases channel?_eq_some_iff.1 h with ⟨high, low, hhigh, hlow, -⟩ | ⟨rfl, hlow⟩
  · exact ⟨hhigh.toNat_lt, hlow.toNat_lt⟩
  · exact ⟨by decide, hlow.toNat_lt⟩

theorem isAscii_of_ofMixture? (h : ofMixture? t = some x) : IsAscii t ∧ t.length = 6 := by
  obtain ⟨r, r', g, g', b, b', red, green, blue, rfl, hred, hgreen, hblue, -⟩ :=
    ofMixture?_eq_some_iff.1 h
  refine ⟨?_, rfl⟩
  simp only [IsAscii, List.forall_mem_cons, toNat_lt_of_channel? hred,
    toNat_lt_of_channel? hgreen, toNat_lt_of_channel? hblue, true_and]
  exact fun _ hc => absurd hc List.not_mem_nil

theorem exists_six (h : t.length = 6) : ∃ r r' g g' b b', t = [r, r', g, g', b, b'] := by
  rcases t with _ | ⟨r, _ | ⟨r', _ | ⟨g, _ | ⟨g', _ | ⟨b, _ | ⟨b', _ | ⟨_, _⟩⟩⟩⟩⟩⟩⟩
  case cons.cons.cons.cons.cons.cons.nil => exact ⟨r, r', g, g', b, b', rfl⟩
  all_goals simp at h

/-- No part is cut inside a character, and reading by bytes comes to the same. -/
theorem ofBytes?_eq (t : Text) : ofBytes? t = some (ofMixture? t) := by
  by_cases h : byteLength t ≠ 6 ∨ ¬ IsAscii t
  · rw [ofBytes?, if_pos h]
    cases hx : ofMixture? t with
    | none => rfl
    | some x =>
      obtain ⟨hascii, hlength⟩ := isAscii_of_ofMixture? hx
      rcases h with h | h
      · exact absurd ((byteLength_of_isAscii hascii).trans hlength) h
      · exact absurd hascii h
  · rw [ofBytes?, if_neg h]
    obtain ⟨hlength, hascii⟩ := not_or.1 h
    have hascii := not_not.1 hascii
    obtain ⟨r, r', g, g', b, b', rfl⟩ :=
      exists_six ((byteLength_of_isAscii hascii).symm.trans (not_not.1 hlength))
    have hred : byteSlice? 0 2 [r, r', g, g', b, b'] = some [r, r'] :=
      byteSlice?_of_isAscii (u := []) (v := [r, r']) (w := [g, g', b, b']) hascii
    have hgreen : byteSlice? 2 4 [r, r', g, g', b, b'] = some [g, g'] :=
      byteSlice?_of_isAscii (u := [r, r']) (v := [g, g']) (w := [b, b']) hascii
    have hblue : byteSlice? 4 6 [r, r', g, g', b, b'] = some [b, b'] :=
      byteSlice?_of_isAscii (u := [r, r', g, g']) (v := [b, b']) (w := []) hascii
    simp only [hred, hgreen, hblue, bind, Option.bind, byteValue?_pair, ofMixture?]
    rfl

end Color

namespace Fill

open Color

theorem parse?_of_trimmed {rest : Text} (h : t.trimmed = '#' :: rest) :
    parse? t = (ofMixture? rest).map color := by
  have hno : saysNone ('#' :: rest) = false := rfl
  simp only [parse?, h, hno, Bool.false_eq_true, if_false]

/-- Behind a number sign stands a mixture or nothing that has a meaning. A mixture is written by
three pairs of characters, of which each is two hexadecimal digits with the value of the pair, or a
plus sign and one digit; where there is no plus sign it is written by six digits. Reading it by
bytes never cuts into a character. -/
theorem parse?_mixture {rest : Text} (h : t.trimmed = '#' :: rest) :
    (∀ f, parse? t = some f ↔ ∃ x, f = .color x ∧
      Written (fun a b n => WritesPlain a b n ∨ WritesSigned a b n) rest x) ∧
    ('+' ∉ rest → ∀ f, parse? t = some f ↔ ∃ x, f = .color x ∧ Written WritesPlain rest x) ∧
    ofBytes? rest = some (ofMixture? rest) := by
  have hparse : ∀ f, parse? t = some f ↔ ∃ x, f = .color x ∧
      Written (fun a b n => WritesPlain a b n ∨ WritesSigned a b n) rest x := by
    intro f
    simp only [parse?_of_trimmed h, Option.map_eq_some_iff, ofMixture?_eq_some_iff,
      channel?_eq_some_iff]
    exact exists_congr fun x => and_comm.trans (and_congr_left' eq_comm)
  refine ⟨hparse, ?_, ofBytes?_eq rest⟩
  intro hplus f
  rw [hparse]
  refine exists_congr fun x => and_congr_right fun _ => ?_
  constructor
  · intro hw
    refine hw.imp fun a b n ha hab => ?_
    rcases hab with hab | ⟨rfl, -⟩
    · exact hab
    · exact absurd ha hplus
  · exact fun hw => hw.imp fun a b n _ hab => .inl hab

theorem parse?_mixture_bothCases : ∃ t rest : Text, t = " #fF00a9\n".toList ∧
    t.trimmed = '#' :: rest ∧ '+' ∉ rest ∧ Written WritesPlain rest (.rgb 255 0 169) ∧
    parse? t = some (.color (.rgb 255 0 169)) := by
  obtain ⟨t, ht⟩ : ∃ t : Text, t = " #fF00a9\n".toList := ⟨_, rfl⟩
  have htrimmed : t.trimmed = '#' :: "fF00a9".toList := by
    rw [ht]
    decide
  have hplus : '+' ∉ "fF00a9".toList := by decide
  have hdigits : Written WritesPlain "fF00a9".toList (.rgb 255 0 169) :=
    ⟨'f', 'F', '0', '0', 'a', '9', 255, 0, 169, rfl,
      ⟨15, 15, ⟨by decide, rfl⟩, ⟨by decide, rfl⟩, rfl⟩, ⟨0, 0, ⟨by decide, rfl⟩,
      ⟨by decide, rfl⟩, rfl⟩, ⟨10, 9, ⟨by decide, rfl⟩, ⟨by decide, rfl⟩, rfl⟩, rfl⟩
  exact ⟨t, _, ht, htrimmed, hplus, hdigits,
    ((parse?_mixture htrimmed).2.1 hplus _).2 ⟨_, rfl, hdigits⟩⟩

/-- A plus sign takes the place of a digit in each part, so that not every mixture has six. -/
theorem not_forall_mixture_of_six_digits : ¬ ∀ t rest : Text, t.trimmed = '#' :: rest →
    ∀ f, parse? t = some f ↔ ∃ x, f = .color x ∧ Written WritesPlain rest x := by
  intro h
  have hparse : parse? "#+1+2+3".toList = some (.color (.rgb 1 2 3)) := by decide
  have htrimmed : Text.trimmed "#+1+2+3".toList = '#' :: "+1+2+3".toList := by decide
  obtain ⟨x, -, r, r', g, g', b, b', red, green, blue, ht, ⟨high, low, hhigh, -⟩, -⟩ :=
    (h _ _ htrimmed _).1 hparse
  have hr : '+' = r := (List.cons.inj ht).1
  have hnone : digitValue? '+' = none := rfl
  rw [← hr, ← digitValue?_eq_some_iff, hnone] at hhigh
  cases hhigh

end Fill

end PatternAnatomy
