import PatternAnatomy.Proofs.Settings.Layering

namespace PatternAnatomy

variable {fs : Files} {name : Text}

namespace Files

theorem parts_ne_nil (t : Text) : parts t ≠ [] := by
  cases t with
  | nil => exact List.cons_ne_nil _ _
  | cons c cs =>
    rw [parts]
    split
    · exact List.cons_ne_nil _ _
    · split <;> exact List.cons_ne_nil _ _

theorem joined_parts (t : Text) : Text.joined ['/'] (parts t) = t := by
  induction t with
  | nil => rfl
  | cons c cs ih =>
    obtain ⟨p, ps, hps⟩ := List.exists_cons_of_ne_nil (parts_ne_nil cs)
    rw [hps] at ih
    rw [parts, hps]
    split
    next hc => rw [Text.joined, ih, hc]; rfl; exact List.cons_ne_nil _ _
    next =>
      cases ps with
      | nil => exact congrArg (c :: ·) ih
      | cons q qs => exact congrArg (c :: ·) ih

theorem joined_concat_append (separator : Text) (ts : List Text) (t u : Text) :
    Text.joined separator (ts ++ [t ++ u]) = Text.joined separator (ts ++ [t]) ++ u := by
  induction ts with
  | nil => rfl
  | cons v ts ih =>
    have hne : ∀ w : Text, ts ++ [w] ≠ [] := by simp
    rw [List.cons_append, List.cons_append, Text.joined, Text.joined, ih]
    · simp only [List.append_assoc]
    · exact hne t
    · exact hne (t ++ u)

/-- A file stands under the name, or else under the name with `.toml` behind it. -/
def Present (fs : Files) (name : Text) : Prop :=
  (∃ text, fs name = .ok text) ∨ ∃ n, tomlName? name = some n ∧ ∃ text, fs n = .ok text

/-- The name with `.toml` behind it, where its last part is that of a file. -/
theorem tomlName?_of_parts {before : List Text} {part : Text}
    (h : parts name = before ++ [part]) (hpart : leadsNowhere part = false)
    (hupward : part ≠ upward) : tomlName? name = some (name ++ ".toml".toList) := by
  have hname : Text.joined ['/'] (before ++ [part]) = name := by rw [← h, joined_parts]
  rw [tomlName?, h, List.reverse_concat, List.dropWhile_cons_of_neg (by simp [hpart])]
  simp only [if_neg hupward, List.reverse_cons, List.reverse_reverse]
  rw [joined_concat_append, hname]

theorem present_iff_of_parts {before : List Text} {part : Text}
    (h : parts name = before ++ [part]) (hpart : leadsNowhere part = false)
    (hupward : part ≠ upward) : fs.Present name ↔
      (∃ text, fs name = .ok text) ∨ ∃ text, fs (name ++ ".toml".toList) = .ok text := by
  simp only [Present, tomlName?_of_parts h hpart hupward, Option.some.injEq, exists_eq_left']

theorem readPlain?_eq_none_iff : fs.readPlain? name = none ↔ ¬ ∃ text, fs name = .ok text := by
  rw [readPlain?]
  cases fs name <;> simp

theorem readToml?_eq_none_iff : fs.readToml? name = none ↔ ¬ fs.Present name := by
  rw [readToml?, Option.or_eq_none_iff, readPlain?_eq_none_iff, Present, not_or]
  refine and_congr_right fun _ => ?_
  cases tomlName? name with
  | none => simp
  | some n => simp [readPlain?_eq_none_iff]

instance : Decidable (fs.Present name) :=
  decidable_of_iff (fs.readToml? name ≠ none) (by rw [Ne, readToml?_eq_none_iff, not_not])

end Files

namespace Settings

open Assignment

variable {root : Tree} {v : Leaves} {k : Leaf} {e : Error}

namespace FileLayer

def value? (fs : Files) (k : Leaf) (layer : FileLayer) : Option k.Value := do
  let (_, text) ← fs.readToml? layer.name
  last? k (← ofFile? text)

/-- The file of the layer is TOML and sets nothing but leaves, if it is there. -/
def Plain (fs : Files) (layer : FileLayer) : Prop :=
  ∀ found ∈ fs.readToml? layer.name, (ofFile? found.2).isSome = true

instance (layer : FileLayer) : Decidable (layer.Plain fs) :=
  inferInstanceAs (Decidable (∀ found ∈ fs.readToml? layer.name, (ofFile? found.2).isSome = true))

def Supplied (fs : Files) (layer : FileLayer) : Prop :=
  layer.required = true → fs.Present layer.name

end FileLayer

theorem addFile_of_not_supplied {layer : FileLayer} (h : ¬ layer.Supplied fs) (root : Tree) :
    Layers.addFile fs root layer = .error (.missingFile layer.name) := by
  obtain ⟨hrequired, hmissing⟩ := Classical.not_imp.1 h
  simp only [Layers.addFile, Files.readToml?_eq_none_iff.2 hmissing, hrequired, if_pos]

theorem holds_addFile {layer : FileLayer} (hplain : layer.Plain fs)
    (hsupplied : layer.Supplied fs) (h : root.Holds v) :
    ∃ root', Layers.addFile fs root layer = .ok root' ∧
      root'.Holds fun k => (layer.value? fs k).getD (v k) := by
  cases hread : fs.readToml? layer.name with
  | none =>
    have hrequired : ¬ layer.required = true :=
      fun hrequired => Files.readToml?_eq_none_iff.1 hread (hsupplied hrequired)
    refine ⟨root, ?_, ?_⟩
    · simp only [Layers.addFile, hread, if_neg hrequired]
    · simpa only [FileLayer.value?, hread, Option.bind_eq_bind, Option.bind_none,
        Option.getD_none] using h
  | some found =>
    obtain ⟨file, text⟩ := found
    obtain ⟨as, has⟩ := Option.isSome_iff_exists.1 (hplain (file, text) hread)
    have hvalue : (fun k => (layer.value? fs k).getD (v k)) = as.foldl overlay v := by
      funext k
      rw [foldl_overlay]
      simp only [FileLayer.value?, hread, has, Option.bind_eq_bind, Option.bind_some]
    simp only [ofFile?, Option.bind_eq_bind, Option.bind_eq_some_iff, Option.pure_def,
      Option.some.injEq] at has
    obtain ⟨es, hparse, ass, hass, rfl⟩ := has
    obtain ⟨root', hmerge, hroot⟩ := h.merge hass file
    refine ⟨root', ?_, hvalue ▸ hroot⟩
    simp only [Layers.addFile, hread, hparse, hmerge]
    rfl

theorem foldlM_eq_error {α β ε : Type} {f : β → α → Except ε β} {x : α} {xs : List α}
    (hx : x ∈ xs) (h : ∀ b, ∃ e, f b x = .error e) (b : β) : ∃ e, xs.foldlM f b = .error e := by
  induction xs generalizing b with
  | nil => cases hx
  | cons y ys ih =>
    rw [List.foldlM_cons]
    cases hy : f b y with
    | error e => exact ⟨e, rfl⟩
    | ok c =>
      rcases List.mem_cons.1 hx with rfl | hx
      · obtain ⟨e, he⟩ := h b
        rw [hy] at he
        cases he
      · exact ih hx c

/-- Where every layer says something about some leaves and leaves the others alone, of many laid
over each other the last that says something about a leaf counts. -/
theorem holds_foldlM {α ε : Type} {f : Tree → α → Except ε Tree}
    {value? : (k : Leaf) → α → Option k.Value} {xs : List α}
    (hf : ∀ x ∈ xs, ∀ (root : Tree) (v : Leaves), root.Holds v → ∃ root', f root x = .ok root' ∧
      root'.Holds fun k => (value? k x).getD (v k))
    (h : root.Holds v) : ∃ root', xs.foldlM f root = .ok root' ∧
      root'.Holds fun k => (findLast? (value? k) xs).getD (v k) := by
  induction xs generalizing root v with
  | nil => exact ⟨root, rfl, h⟩
  | cons x xs ih =>
    rw [List.forall_mem_cons] at hf
    obtain ⟨root', hx, hroot⟩ := hf.1 root v h
    obtain ⟨root'', hxs, hroot⟩ := ih hf.2 hroot
    refine ⟨root'', ?_, ?_⟩
    · rw [List.foldlM_cons, hx]
      exact hxs
    · simpa only [getD_findLast?_cons] using hroot

def overrideValue? (k : Leaf) (o : KeyPath × Scalar) : Option k.Value :=
  (ofPath? o.1 o.2).bind (for? k)

theorem overrideValue?_of_ne {path : KeyPath} {x : Scalar} {a : Assignment}
    (ha : a.leaf.path = path) (hk : a.leaf ≠ k) : overrideValue? k (path, x) = none := by
  rw [overrideValue?, Option.bind_eq_none_iff]
  intro b hb
  have hleaf := (ofPath?_eq_some_iff.1 hb).1
  exact for?_of_ne (Leaf.path_injective (hleaf.trans ha.symm) ▸ hk)

theorem holds_override {o : KeyPath × Scalar} (ho : (ofPath? o.1 o.2).isSome = true)
    (h : root.Holds v) : ∃ root', root.set o.1 (.scalar o.2 none) = .ok root' ∧
      root'.Holds fun k => (overrideValue? k o).getD (v k) := by
  obtain ⟨a, ha⟩ := Option.isSome_iff_exists.1 ho
  have hvalue : (fun k => (overrideValue? k o).getD (v k)) = a.overlay v := by
    funext k
    rw [overrideValue?, ha, Option.bind_some, overlay]
  exact hvalue ▸ h.set ha none

/-- An override in the place of an earlier one with the same path says all that both say. -/
theorem findLast?_replaced {os : List (KeyPath × Scalar)} {path : KeyPath} {x : Scalar}
    (h : (ofPath? path x).isSome = true) (k : Leaf) :
    findLast? (overrideValue? k) (os.filter (·.1 ≠ path) ++ [(path, x)]) =
      (overrideValue? k (path, x)).or (findLast? (overrideValue? k) os) := by
  obtain ⟨a, ha⟩ := Option.isSome_iff_exists.1 h
  have hpath := (ofPath?_eq_some_iff.1 ha).1
  rw [findLast?_append, findLast?_singleton]
  by_cases hk : a.leaf = k
  · subst hk
    rw [overrideValue?, ha, Option.bind_some, for?_leaf]
    rfl
  · congr 1
    apply findLast?_filter
    rintro ⟨p, y⟩ hp
    obtain rfl : p = path := by simpa using hp
    exact overrideValue?_of_ne hpath hk

namespace Layers

variable {ls : Layers}

theorem build_eq_ok (hfiles : ∀ layer ∈ ls.files, layer.Plain fs)
    (hsupplied : ∀ layer ∈ ls.files, layer.Supplied fs)
    (hoverrides : ∀ o ∈ ls.overrides, (ofPath? o.1 o.2).isSome = true) :
    ls.build fs = .ok (ofLeaves fun k => ((findLast? (overrideValue? k) ls.overrides).or
      (findLast? (FileLayer.value? fs k) ls.files)).getD (defaults.get k)) := by
  obtain ⟨root, hadd, hroot⟩ := holds_foldlM (f := addFile fs)
    (fun layer hlayer _ _ => holds_addFile (hfiles layer hlayer) (hsupplied layer hlayer))
    defaults.holds_toTree
  obtain ⟨root', hset, hroot'⟩ := holds_foldlM
    (f := fun root (o : KeyPath × Scalar) => root.set o.1 (.scalar o.2 none))
    (fun o ho _ _ => holds_override (hoverrides o ho)) hroot
  simp only [← Option.getD_or] at hroot'
  have hbuild : ls.build fs = ofTree root' := by
    simp only [build, hadd, bind, Except.bind, hset, Except.mapError]
  rw [hbuild, hroot'.ofTree_eq_ok]

theorem exists_build_eq_error {layer : FileLayer} (hlayer : layer ∈ ls.files)
    (hmissing : ¬ layer.Supplied fs) : ∃ e, ls.build fs = .error e := by
  have hadd : ∀ root, ∃ e, addFile fs root layer = .error e :=
    fun root => ⟨_, addFile_of_not_supplied hmissing root⟩
  obtain ⟨e, he⟩ := foldlM_eq_error hlayer hadd defaults.toTree
  refine ⟨e, ?_⟩
  simp only [build, he, bind, Except.bind]

end Layers

end Settings

end PatternAnatomy
