import PatternAnatomy.Proofs.Settings.Leaf

namespace PatternAnatomy.Settings

theorem mapM_eq_ok {α β ε : Type} {f : α → Except ε β} {g : α → β} (h : ∀ x, f x = .ok (g x))
    (xs : List α) : xs.mapM f = .ok (xs.map g) := by
  have hf : f = fun x => pure (g x) := funext h
  rw [hf]
  exact List.mapM_pure

theorem readColors_eq_ok {es : List (Text × Tree)} {file : Option Text} {g : Category → Text}
    (h : ∀ c : Category, ∃ f, es.lookup c.key = some (.scalar (.text (g c)) f)) :
    readColors (.table es file) = .ok g := by
  simp only [readColors, fields, bind, Except.bind, List.mapM_map]
  rw [mapM_eq_ok (g := fun c => some (g c))]
  · have hnone : (Category.all.zip (Category.all.map fun c => some (g c))).find? (·.2.isNone) =
        none := rfl
    simp only [hnone]
    congr 1
    funext c
    cases c <;> rfl
  · intro c
    obtain ⟨f, hf⟩ := h c
    simp only [Function.comp, Tree.get?, hf]
    rfl

theorem readOutput_eq_ok {es : List (Text × Tree)} {file f g : Option Text} {name : Text}
    {format : OutputFormat} {offsets : Bool}
    (hformat : es.lookup "format".toList = some (.scalar (.text name) f))
    (hname : OutputFormat.ofName? name.lowercase = some format)
    (hoffsets : es.lookup "show_offsets".toList = some (.scalar (.boolean offsets) g)) :
    readOutput (.table es file) = .ok (format, offsets) := by
  have hread : readFormat (.scalar (.text name) f) = .ok format := by
    simp only [readFormat, formatOfName, hname]
  simp only [readOutput, fields, List.map_cons, List.map_nil, Tree.get?, hformat, hoffsets, bind,
    Except.bind, Option.mapM_some, Functor.map, Except.map, hread]
  rfl

end PatternAnatomy.Settings

namespace PatternAnatomy

open Settings

variable {root : Tree} {v : Leaves}

namespace Settings.Leaf

theorem eq_text_of_read? {c : Category} {x : Scalar} {t : Text}
    (h : (color c).read? x = some t) : x = .text t := by
  cases x with
  | text u => exact congrArg Scalar.text (Option.some.inj h)
  | _ => cases h

theorem exists_name_of_read? {x : Scalar} {f : OutputFormat} (h : format.read? x = some f) :
    ∃ t, x = .text t ∧ OutputFormat.ofName? t.lowercase = some f := by
  cases x with
  | text t => exact ⟨t, rfl, h⟩
  | _ => cases h

theorem eq_boolean_of_read? {x : Scalar} {b : Bool} (h : showOffsets.read? x = some b) :
    x = .boolean b := by
  cases x with
  | boolean c => exact congrArg Scalar.boolean (Option.some.inj h)
  | _ => cases h

end Settings.Leaf

namespace Tree

theorem Holds.lookup (h : root.Holds v) {es : List (Text × Tree)} {file : Option Text} {k : Leaf}
    (ht : root.get? k.table = some (.table es file)) :
    ∃ x f, es.lookup k.key = some (.scalar x f) ∧ k.read? x = some (v k) := by
  obtain ⟨t, x, f, ht', hx, hread⟩ := h k
  obtain rfl := Option.some.inj (ht.symm.trans ht')
  exact ⟨x, f, hx, hread⟩

theorem Holds.exists_entries (h : root.Holds v) (k : Leaf) :
    ∃ es file, root.get? k.table = some (.table es file) := by
  obtain ⟨t, x, _, ht, hx, _⟩ := h k
  cases t with
  | table es file => exact ⟨es, file, ht⟩
  | _ => cases hx

/-- All that is read of a tree are its leaves. -/
theorem Holds.ofTree_eq_ok (h : root.Holds v) : ofTree root = .ok (ofLeaves v) := by
  obtain ⟨ps, pfile, hp⟩ := h.exists_entries (.color .group)
  obtain ⟨os, ofile, ho⟩ := h.exists_entries .format
  have hcolors : readColors (.table ps pfile) = .ok fun c => v (.color c) := by
    apply readColors_eq_ok
    intro c
    obtain ⟨x, f, hx, hread⟩ := h.lookup (k := .color c) hp
    exact ⟨f, Leaf.eq_text_of_read? hread ▸ hx⟩
  have houtput : readOutput (.table os ofile) = .ok (v .format, v .showOffsets) := by
    obtain ⟨x, f, hx, hread⟩ := h.lookup (k := .format) ho
    obtain ⟨y, g, hy, hread'⟩ := h.lookup (k := .showOffsets) ho
    obtain ⟨name, rfl, hname⟩ := Leaf.exists_name_of_read? hread
    obtain rfl := Leaf.eq_boolean_of_read? hread'
    exact readOutput_eq_ok hx hname hy
  have hp : root.get? paletteName = some (.table ps pfile) := hp
  have ho : root.get? outputName = some (.table os ofile) := ho
  simp only [ofTree, hp, ho, bind, Except.bind, hcolors, houtput]
  rfl

end Tree

namespace Settings

theorem ofName?_name (f : OutputFormat) : OutputFormat.ofName? f.name.lowercase = some f := by
  cases f <;> rfl

theorem holds_toTree (s : Settings) : s.toTree.Holds s.get := by
  intro k
  cases k with
  | color c => cases c <;> exact ⟨_, _, _, rfl, rfl, rfl⟩
  | format => exact ⟨_, _, _, rfl, rfl, ofName?_name s.format⟩
  | showOffsets => exact ⟨_, _, _, rfl, rfl, rfl⟩

theorem ofTree_toTree (s : Settings) : ofTree s.toTree = .ok s := s.holds_toTree.ofTree_eq_ok

end Settings

end PatternAnatomy
