import PatternAnatomy.Span
import PatternAnatomy.Text.Quoted

namespace PatternAnatomy.Text

def OneLine (t : Text) : Prop := '\n' ∉ t

instance (t : Text) : Decidable (OneLine t) := inferInstanceAs (Decidable ('\n' ∉ t))

variable {s t : Text} {c quote : Char} {n base : Nat}

theorem oneLine_append : OneLine (s ++ t) ↔ OneLine s ∧ OneLine t := by
  rw [OneLine, List.mem_append, not_or]
  rfl

theorem oneLine_cons : OneLine (c :: t) ↔ c ≠ '\n' ∧ OneLine t := by
  rw [OneLine, List.mem_cons, not_or, eq_comm]
  rfl

theorem oneLine_toDigits (hbase : 1 < base) (hle : base ≤ 16) (n : Nat) :
    OneLine (Nat.toDigits base n) := by
  have hdigit : ∀ d < 16, OneLine [Nat.digitChar d] := by decide
  induction n using Nat.strongRecOn with
  | ind n ih =>
    rw [Nat.toDigits_eq_if hbase]
    split
    · next hn => exact hdigit n (Nat.lt_of_lt_of_le hn hle)
    · next hn =>
      have hpos := Nat.lt_of_lt_of_le (Nat.zero_lt_of_lt hbase) (Nat.le_of_not_lt hn)
      have hlt := Nat.div_lt_self hpos hbase
      have hmod := Nat.mod_lt n (Nat.zero_lt_of_lt hbase)
      exact oneLine_append.2 ⟨ih _ hlt, hdigit _ (Nat.lt_of_lt_of_le hmod hle)⟩

theorem oneLine_ofNat (n : Nat) : OneLine (ofNat n) :=
  oneLine_toDigits (by decide) (by decide) n

theorem oneLine_render (s : Span) : OneLine s.render :=
  oneLine_append.2 ⟨oneLine_append.2 ⟨oneLine_ofNat _, by decide⟩, oneLine_ofNat _⟩

theorem oneLine_escaped (hquote : quote ≠ '\n') (c : Char) : OneLine (escaped quote c) := by
  have hback : '\\' ≠ '\n' := by decide
  have hpair : ∀ {d}, d ≠ '\n' → OneLine ['\\', d] := fun hd =>
    oneLine_cons.2 ⟨hback, oneLine_cons.2 ⟨hd, List.not_mem_nil⟩⟩
  unfold escaped
  split
  · next h => exact h.elim (fun hc => hpair (hc ▸ hquote)) fun hc => hpair (hc ▸ hback)
  -- The common control characters have a letter each.
  iterate 4 (split; exact hpair (by decide))
  next hc =>
    split
    · have hdigits := oneLine_toDigits (by decide : 1 < 16) (by decide) c.toNat
      exact oneLine_append.2 ⟨oneLine_append.2 ⟨by decide, hdigits⟩, by decide⟩
    · exact oneLine_cons.2 ⟨hc, List.not_mem_nil⟩

theorem oneLine_quoted (t : Text) : OneLine (quoted t) := by
  refine oneLine_append.2 ⟨oneLine_cons.2 ⟨by decide, fun h => ?_⟩, by decide⟩
  obtain ⟨c, -, hc⟩ := List.mem_flatMap.1 h
  exact oneLine_escaped (by decide) c hc

theorem oneLine_quotedChar (c : Char) : OneLine (quotedChar c) :=
  oneLine_append.2 ⟨oneLine_cons.2 ⟨by decide, oneLine_escaped (by decide) c⟩, by decide⟩

/-- A text is cut short within its first line only if a line feed is not among what is kept. -/
theorem oneLine_shortened_iff {limit : Nat} :
    OneLine (shortened limit t) ↔ OneLine (t.take limit) := by
  unfold shortened
  split
  · rw [oneLine_append]
    exact and_iff_left (by decide)
  · next h => rw [List.take_of_length_le (Nat.le_of_not_lt h)]

/-- Lines, each ended by a line feed, as a text. -/
def ended (ts : List Text) : Text := ts.flatMap fun t => t ++ ['\n']

/-- Lines that stand one below the other are what a text of them falls into. -/
theorem splitOn_ended {ts : List Text} (h : ∀ t ∈ ts, OneLine t) :
    (ended ts).splitOn '\n' = ts ++ [[]] := by
  induction ts with
  | nil => exact List.splitOn_nil '\n'
  | cons t ts ih =>
    obtain ⟨ht, hts⟩ := List.forall_mem_cons.1 h
    have hsplit := List.splitOn_append_cons_self_of_not_mem ht (ended ts)
    rw [ih hts] at hsplit
    rw [ended, List.flatMap_cons, List.append_assoc]
    exact hsplit

theorem one_lt_length_splitOn (h : ¬ OneLine t) : 1 < (t.splitOn '\n').length := by
  obtain ⟨u, v, rfl, -⟩ := List.eq_append_cons_of_mem (Decidable.not_not.1 h)
  have hu := List.length_pos_iff.2 (List.splitOn_ne_nil '\n' u)
  have hv := List.length_pos_iff.2 (List.splitOn_ne_nil '\n' v)
  rw [List.splitOn_append_cons_self, List.length_append]
  omega

/-- A text has at least as many lines as it was put together from, and exactly as many only if each
of them was one. -/
theorem lt_length_splitOn_ended (ts : List Text) : ts.length < ((ended ts).splitOn '\n').length ∧
    (((ended ts).splitOn '\n').length = ts.length + 1 → ∀ t ∈ ts, OneLine t) := by
  induction ts with
  | nil => simp [ended]
  | cons t ts ih =>
    have hcons : ((ended (t :: ts)).splitOn '\n').length =
        (t.splitOn '\n').length + ((ended ts).splitOn '\n').length := by
      rw [ended, List.flatMap_cons, List.append_assoc, List.singleton_append,
        List.splitOn_append_cons_self, List.length_append]
      rfl
    have hpos := List.length_pos_iff.2 (List.splitOn_ne_nil '\n' t)
    rw [hcons, List.length_cons]
    refine ⟨by omega, fun heq => List.forall_mem_cons.2 ⟨?_, ih.2 (by omega)⟩⟩
    refine Decidable.byContradiction fun ht => ?_
    have hlt := one_lt_length_splitOn ht
    omega

theorem length_splitOn_ended_iff {ts : List Text} :
    ((ended ts).splitOn '\n').length = ts.length + 1 ↔ ∀ t ∈ ts, OneLine t := by
  refine ⟨(lt_length_splitOn_ended ts).2, fun h => ?_⟩
  rw [splitOn_ended h, List.length_append]
  rfl

end PatternAnatomy.Text
