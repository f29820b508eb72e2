import PatternAnatomy.Proofs.Settings.Stacking

namespace PatternAnatomy.Settings

open Assignment

variable {fs : Files} {k : Leaf}

namespace Layers

variable {ls : Layers}

/-- One more layer: a file, or a value for a key. -/
inductive Step where
  | file (name : Text)
  | optionalFile (name : Text)
  | override (key : Text) (value : Scalar)

namespace Step

def layer? : Step → Option FileLayer
  | file name => some ⟨name, true⟩
  | optionalFile name => some ⟨name, false⟩
  | override .. => none

def fileValue? (fs : Files) (k : Leaf) (step : Step) : Option k.Value :=
  step.layer?.bind (FileLayer.value? fs k)

def overrideValue? (k : Leaf) : Step → Option k.Value
  | override key x => (KeyPath.parse key).toOption.bind fun path =>
    Settings.overrideValue? k (path, x)
  | _ => none

/-- The step sets nothing but leaves: a file that is there is TOML and holds values for leaves only,
and the key of an override is that of a leaf which can take its value. -/
def Plain (fs : Files) : Step → Prop
  | file name => FileLayer.Plain fs ⟨name, true⟩
  | optionalFile name => FileLayer.Plain fs ⟨name, false⟩
  | override key x => ∃ path, KeyPath.parse key = .ok path ∧ (ofPath? path x).isSome = true

instance : (step : Step) → Decidable (step.Plain fs)
  | file name => inferInstanceAs (Decidable (FileLayer.Plain fs ⟨name, true⟩))
  | optionalFile name => inferInstanceAs (Decidable (FileLayer.Plain fs ⟨name, false⟩))
  | override key x => decidable_of_iff
      (∃ path ∈ (KeyPath.parse key).toOption, (ofPath? path x).isSome = true) (by
        cases h : KeyPath.parse key <;> simp [Plain, h, Except.toOption])

/-- The dotted name of a leaf sets it to whatever it can take. -/
theorem overrideValue?_name (k : Leaf) (x : Scalar) :
    overrideValue? k (override (k.table ++ '.' :: k.key) x) = k.read? x := by
  simp only [overrideValue?, k.parse_name, Except.toOption, Option.bind_some,
    Settings.overrideValue?, ofPath?, k.ofPath?_path, Option.bind_eq_bind]
  cases hx : k.read? x with
  | none => rfl
  | some y => exact for?_leaf ⟨k, y⟩

theorem plain_override_name (k : Leaf) (x : Scalar) :
    (override (k.table ++ '.' :: k.key) x).Plain fs ↔ (k.read? x).isSome = true := by
  simp only [Plain, k.parse_name, Except.ok.injEq, exists_eq_left', ofPath?, k.ofPath?_path,
    Option.bind_eq_bind, Option.bind_some]
  cases hx : k.read? x <;> rfl

def Missing (fs : Files) : Step → Prop
  | file name => ¬ fs.Present name
  | _ => False

instance : (step : Step) → Decidable (step.Missing fs)
  | file name => inferInstanceAs (Decidable (¬ fs.Present name))
  | optionalFile _ => inferInstanceAs (Decidable False)
  | override .. => inferInstanceAs (Decidable False)

end Step

open Step

variable {step : Step} {steps : List Step}

def add (ls : Layers) : Step → Except Error Layers
  | .file name => .ok (ls.withFile name)
  | .optionalFile name => .ok (ls.withOptionalFile name)
  | .override key x => ls.override key x

def ofSteps (steps : List Step) : Except Error Layers := steps.foldlM add empty

theorem Step.Plain.layer {layer : FileLayer} (h : step.Plain fs)
    (hlayer : step.layer? = some layer) : layer.Plain fs := by
  cases step with
  | override => cases hlayer
  | _ => exact Option.some.inj hlayer ▸ h

theorem Step.missing_iff : step.Missing fs ↔ ∃ layer, step.layer? = some layer ∧
    ¬ layer.Supplied fs := by
  cases step <;> simp [Missing, layer?, FileLayer.Supplied]

/-- Layers that hold what some steps have set. -/
structure Reflects (ls : Layers) (steps : List Step) : Prop where
  files : ls.files = steps.filterMap layer?
  plain : ∀ o ∈ ls.overrides, (ofPath? o.1 o.2).isSome = true
  overrides : ∀ k, findLast? (Settings.overrideValue? k) ls.overrides =
    findLast? (Step.overrideValue? k) steps

/-- A plain step never fails, and the layers then hold what it sets. -/
theorem Reflects.add (h : ls.Reflects steps) (hplain : step.Plain fs) :
    ∃ ls', ls.add step = .ok ls' ∧ ls'.Reflects (steps ++ [step]) := by
  cases step with
  | file name =>
    refine ⟨_, rfl, ?_, h.plain, fun k => ?_⟩
    · rw [List.filterMap_append, ← h.files]
      rfl
    · rw [findLast?_append, ← h.overrides]
      rfl
  | optionalFile name =>
    refine ⟨_, rfl, ?_, h.plain, fun k => ?_⟩
    · rw [List.filterMap_append, ← h.files]
      rfl
    · rw [findLast?_append, ← h.overrides]
      rfl
  | override key x =>
    obtain ⟨path, hparse, hpath⟩ := hplain
    refine ⟨⟨ls.files, ls.overrides.filter (·.1 ≠ path) ++ [(path, x)]⟩, ?_, ?_, ?_, fun k => ?_⟩
    · simp only [Layers.add, Layers.override, hparse]
    · rw [List.filterMap_append, ← h.files]
      exact (List.append_nil _).symm
    · intro o ho
      rcases List.mem_append.1 ho with ho | ho
      · exact h.plain o (List.mem_filter.1 ho).1
      · rw [List.mem_singleton.1 ho]
        exact hpath
    · rw [findLast?_replaced hpath, h.overrides, findLast?_append, findLast?_singleton,
        Step.overrideValue?, hparse]
      rfl

theorem Reflects.addAll {before : List Step} (h : ls.Reflects before)
    (hplain : ∀ step ∈ steps, step.Plain fs) :
    ∃ ls', steps.foldlM Layers.add ls = .ok ls' ∧ ls'.Reflects (before ++ steps) := by
  induction steps generalizing ls before with
  | nil => exact ⟨ls, rfl, (List.append_nil before).symm ▸ h⟩
  | cons step steps ih =>
    rw [List.forall_mem_cons] at hplain
    obtain ⟨ls', hadd, h'⟩ := h.add hplain.1
    obtain ⟨ls'', hsteps, h''⟩ := ih h' hplain.2
    refine ⟨ls'', ?_, ?_⟩
    · rw [List.foldlM_cons, hadd]
      exact hsteps
    · rwa [List.append_assoc, List.singleton_append] at h''

theorem exists_reflects (h : ∀ step ∈ steps, step.Plain fs) :
    ∃ ls, ofSteps steps = .ok ls ∧ ls.Reflects steps :=
  have hempty : empty.Reflects [] := ⟨rfl, fun _ ho => (List.not_mem_nil ho).elim, fun _ => rfl⟩
  hempty.addAll h

/-- The value of a leaf: that of its last override, or else that of the last file which sets it, or
else the default. -/
def resolved (fs : Files) (steps : List Step) : Leaves := fun k =>
  ((findLast? (Step.overrideValue? k) steps).or
    (findLast? (Step.fileValue? fs k) steps)).getD (defaults.get k)

theorem Reflects.build_eq_ok (h : ls.Reflects steps) (hplain : ∀ step ∈ steps, step.Plain fs)
    (hmissing : ¬ ∃ step ∈ steps, step.Missing fs) :
    ls.build fs = .ok (ofLeaves (resolved fs steps)) := by
  have hlayer : ∀ layer ∈ ls.files, ∃ step ∈ steps, step.layer? = some layer := by
    intro layer hmem
    rw [h.files] at hmem
    exact List.mem_filterMap.1 hmem
  rw [Layers.build_eq_ok _ _ h.plain]
  · simp only [h.overrides, h.files, findLast?_filterMap]
    rfl
  · intro layer hmem
    obtain ⟨step, hstep, hlayer⟩ := hlayer layer hmem
    exact (hplain step hstep).layer hlayer
  · intro layer hmem
    obtain ⟨step, hstep, hlayer⟩ := hlayer layer hmem
    by_contra hsupplied
    exact hmissing ⟨step, hstep, Step.missing_iff.2 ⟨layer, hlayer, hsupplied⟩⟩

theorem Reflects.exists_build_eq_error (h : ls.Reflects steps) (hstep : step ∈ steps)
    (hmissing : step.Missing fs) : ∃ e, ls.build fs = .error e := by
  obtain ⟨layer, hlayer, hsupplied⟩ := Step.missing_iff.1 hmissing
  refine Layers.exists_build_eq_error ?_ hsupplied
  rw [h.files]
  exact List.mem_filterMap.2 ⟨step, hstep, hlayer⟩

/-- A step between others that says nothing about a leaf does not matter to it. -/
theorem resolved_of_silent {before after : List Step} {k : Leaf}
    (hfile : step.fileValue? fs k = none) (hoverride : step.overrideValue? k = none) :
    resolved fs (before ++ step :: after) k = resolved fs (before ++ after) k := by
  simp only [resolved, findLast?_append, findLast?_cons, hfile, hoverride, Option.or_none]

/-- Whatever order files and overrides come in, nothing but a missing file fails; each leaf has its
resolved value; and a step that says nothing about a leaf could as well be left out. -/
theorem build_resolves (hplain : ∀ step ∈ steps, step.Plain fs) :
    ∃ ls, ofSteps steps = .ok ls ∧
      ((∃ e, ls.build fs = .error e) ↔ ∃ step ∈ steps, step.Missing fs) ∧
      (∀ s, ls.build fs = .ok s → ∀ k, s.get k = resolved fs steps k) ∧
      ∀ s before step after, ls.build fs = .ok s → steps = before ++ step :: after →
        ∃ ls' s', ofSteps (before ++ after) = .ok ls' ∧ ls'.build fs = .ok s' ∧
          ∀ k : Leaf, step.fileValue? fs k = none → step.overrideValue? k = none →
            s.get k = s'.get k := by
  obtain ⟨ls, hls, h⟩ := exists_reflects hplain
  have hbuild : ∀ s, ls.build fs = .ok s → (¬ ∃ step ∈ steps, step.Missing fs) ∧
      s = ofLeaves (resolved fs steps) := by
    intro s hs
    have hmissing : ¬ ∃ step ∈ steps, step.Missing fs := by
      rintro ⟨step, hstep, hmissing⟩
      obtain ⟨e, he⟩ := h.exists_build_eq_error hstep hmissing
      rw [hs] at he
      cases he
    rw [h.build_eq_ok hplain hmissing] at hs
    exact ⟨hmissing, (Except.ok.inj hs).symm⟩
  refine ⟨ls, hls, ⟨?_, ?_⟩, ?_, ?_⟩
  · rintro ⟨e, he⟩
    by_contra hmissing
    rw [h.build_eq_ok hplain hmissing] at he
    cases he
  · rintro ⟨step, hstep, hmissing⟩
    exact h.exists_build_eq_error hstep hmissing
  · intro s hs k
    obtain ⟨-, rfl⟩ := hbuild s hs
    exact get_ofLeaves _ k
  · rintro s before step after hs rfl
    obtain ⟨hmissing, rfl⟩ := hbuild s hs
    have hsub : before ++ after ⊆ before ++ step :: after :=
      ((List.sublist_cons_self step after).append_left before).subset
    have hplain' : ∀ other ∈ before ++ after, other.Plain fs :=
      fun other hother => hplain other (hsub hother)
    obtain ⟨ls', hls', h'⟩ := exists_reflects hplain'
    refine ⟨ls', _, hls', h'.build_eq_ok hplain' ?_, ?_⟩
    · rintro ⟨other, hother, hother'⟩
      exact hmissing ⟨other, hsub hother, hother'⟩
    · intro k hfile hoverride
      rw [get_ofLeaves, get_ofLeaves, resolved_of_silent hfile hoverride]

/-- Two files that set a color both, one in tables and one by paths. -/
def twoFiles : Files := fun name =>
  if name = "mine.toml".toList then
    .ok "[palette]\ngroup = \"red\"\nEscape = \"blue\"\n[output]\nshow_offsets = false\n".toList
  else if name = "ours".toList then
    .ok "\"palette.group\" = \"#010203\"\noutput.format = \"Tree\"\n".toList
  else .error .missing

/-- Steps that take both files, and override two leaves in between. -/
def mixedSteps : List Step :=
  [.override "Output.Format".toList (.text "JSON".toList), .file "mine".toList,
    .optionalFile "absent".toList, .override "palette.digit".toList (.text "white".toList),
    .file "ours".toList, .override "palette.digit".toList (.text "none".toList)]

theorem build_resolves_mixedSteps :
    ∃ ls s, ofSteps mixedSteps = .ok ls ∧ ls.build twoFiles = .ok s ∧
      s.get (.color .group) = "#010203".toList ∧ s.get (.color .escape) = "blue".toList ∧
      s.get (.color .digit) = "none".toList ∧ s.get (.color .anyChar) = "dark_magenta".toList ∧
      s.get .format = .json ∧ s.get .showOffsets = false := by
  have hplain : ∀ step ∈ mixedSteps, step.Plain twoFiles := by decide +kernel
  have hmissing : ¬ ∃ step ∈ mixedSteps, step.Missing twoFiles := by decide +kernel
  obtain ⟨ls, hls, herror, hget, -⟩ := build_resolves hplain
  cases hbuild : ls.build twoFiles with
  | error e => exact absurd (herror.1 ⟨e, hbuild⟩) hmissing
  | ok s =>
    refine ⟨ls, s, hls, hbuild, ?_⟩
    simp only [hget s hbuild]
    decide +kernel

end Layers

end PatternAnatomy.Settings
