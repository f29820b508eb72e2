import PatternAnatomy.Proofs.Settings.Reading

namespace PatternAnatomy

open Settings

/-- The scalar that a value of a file is kept as. -/
def Toml.Value.scalar? : Toml.Value → Option Scalar
  | .text t => some (.text t)
  | .boolean b => some (.boolean b)
  | _ => none

namespace Settings

namespace Assignment

/-- A scalar at the end of a path, where that is a leaf which can take it. -/
def ofPath? (path : KeyPath) (x : Scalar) : Option Assignment := do
  let k ← Leaf.ofPath? path
  return ⟨k, ← k.read? x⟩

def ofMember? (table : Text) (entry : Text × Toml.Value) : Option Assignment := do
  ofPath? ⟨table, [.member entry.1.lowercase]⟩ (← entry.2.scalar?)

/-- What an entry of a file sets: leaves of a table, or a single leaf by its path. -/
def ofEntry? (entry : Text × Toml.Value) : Option (List Assignment) := do
  let path ← (KeyPath.parse entry.1).toOption
  match path.steps, entry.2 with
  | [], .table es =>
    if path.first = paletteName ∨ path.first = outputName then es.mapM (ofMember? path.first)
    else none
  | _, value => return [← ofPath? path (← value.scalar?)]

/-- What a file sets, in its order, if it is TOML and sets nothing but leaves. -/
def ofFile? (text : Text) : Option (List Assignment) := do
  let es ← Toml.parse? text
  return (← es.mapM ofEntry?).flatten

variable {path : KeyPath} {x : Scalar} {a : Assignment}

theorem ofPath?_eq_some_iff :
    ofPath? path x = some a ↔ a.leaf.path = path ∧ a.leaf.read? x = some a.value := by
  simp only [ofPath?, Option.bind_eq_bind, Option.bind_eq_some_iff, Option.pure_def,
    Option.some.injEq]
  constructor
  · rintro ⟨k, hk, y, hy, rfl⟩
    exact ⟨Leaf.path_of_ofPath? hk, hy⟩
  · rintro ⟨rfl, hy⟩
    exact ⟨a.leaf, a.leaf.ofPath?_path, a.value, hy, rfl⟩

end Assignment

end Settings

namespace Tree

variable {root t : Tree} {v : Leaves} {k : Leaf} {x : Scalar} {file : Option Text}

theorem Holds.set {path : KeyPath} {a : Assignment} (h : root.Holds v)
    (ha : Assignment.ofPath? path x = some a) (file : Option Text) :
    ∃ root', root.set path (.scalar x file) = .ok root' ∧ root'.Holds (a.overlay v) := by
  obtain ⟨rfl, hread⟩ := Assignment.ofPath?_eq_some_iff.1 ha
  obtain ⟨t, _, _, ht, -, -⟩ := h a.leaf
  refine ⟨root.put a.leaf.table (t.put a.leaf.key (.scalar x file)), ?_,
    (h.put_same ht).put_leaf hread⟩
  simp only [Tree.set, Leaf.path, setAt, ht]
  rfl

theorem ofToml_of_scalar? {value : Toml.Value} (h : value.scalar? = some x) (name : Text) :
    ofToml name value = .scalar x (some name) := by
  cases value with
  | text t => cases h; rfl
  | boolean b => cases h; rfl
  | _ => cases h

theorem Holds.assignAll {name file : Text} {es : List (Text × Toml.Value)} {as : List Assignment}
    (h : (root.put name t).Holds v) (has : es.mapM (Assignment.ofMember? name) = some as) :
    (root.put name (t.assignAll (ofTomlEntries file es))).Holds
      (as.foldl Assignment.overlay v) := by
  induction es generalizing t v as with
  | nil =>
    obtain rfl := Option.some.inj has
    exact h
  | cons e es ih =>
    obtain ⟨key, value⟩ := e
    simp only [List.mapM_cons, Option.bind_eq_bind, Option.bind_eq_some_iff, Option.pure_def,
      Option.some.injEq] at has
    obtain ⟨a, ha, as, has, rfl⟩ := has
    simp only [Assignment.ofMember?, Option.bind_eq_bind, Option.bind_eq_some_iff] at ha
    obtain ⟨x, hx, ha⟩ := ha
    obtain ⟨hpath, hread⟩ := Assignment.ofPath?_eq_some_iff.1 ha
    obtain ⟨rfl, hkey⟩ : a.leaf.table = name ∧ a.leaf.key = key.lowercase := by
      simpa [Leaf.path] using hpath
    have hassign : t.assignAll (ofTomlEntries file ((key, value) :: es)) =
        (t.put a.leaf.key (.scalar x (some file))).assignAll (ofTomlEntries file es) := by
      rw [ofTomlEntries, ofToml_of_scalar? hx, Tree.assignAll, ← hkey]
      rfl
    rw [hassign, List.foldl_cons]
    exact ih (h.put_leaf hread) has

theorem exists_leaf_of_table {name : Text} (h : name = paletteName ∨ name = outputName) :
    ∃ k : Leaf, k.table = name := by
  rcases h with rfl | rfl
  · exact ⟨.color .group, rfl⟩
  · exact ⟨.format, rfl⟩

theorem Holds.set_entry {path : KeyPath} {key : Text} {value : Toml.Value} {as : List Assignment}
    (h : root.Holds v) (hpath : KeyPath.parse key = .ok path)
    (has : Assignment.ofEntry? (key, value) = some as) (name : Text) :
    ∃ root', root.set path (ofToml name value) = .ok root' ∧
      root'.Holds (as.foldl Assignment.overlay v) := by
  simp only [Assignment.ofEntry?, hpath, Except.toOption, Option.bind_eq_bind,
    Option.bind_some] at has
  split at has
  next es hsteps =>
    obtain ⟨first, steps⟩ := path
    obtain rfl : steps = [] := hsteps
    split at has
    next hfirst =>
      obtain ⟨k, rfl⟩ := exists_leaf_of_table hfirst
      obtain ⟨t, _, _, ht, -, -⟩ := h k
      refine ⟨root.put k.table (t.assignAll (ofTomlEntries name es)), ?_,
        (h.put_same ht).assignAll has⟩
      have hset : root.set ⟨k.table, []⟩ (ofToml name (.table es)) =
          .ok (root.put k.table (((root.get? k.table).getD emptyTable).assignAll
            (ofTomlEntries name es))) := rfl
      rw [hset, ht, Option.getD_some]
    next => cases has
  next =>
    simp only [Option.bind_eq_some_iff, Option.pure_def, Option.some.injEq] at has
    obtain ⟨x, hx, a, ha, rfl⟩ := has
    rw [ofToml_of_scalar? hx]
    exact h.set ha (some name)

theorem merge_cons {path : KeyPath} {key : Text} (hpath : KeyPath.parse key = .ok path)
    (root t : Tree) (es : List (Text × Tree)) :
    root.merge ((key, t) :: es) = (root.set path t).bind fun root => root.merge es := by
  simp only [merge, List.foldlM_cons, hpath]
  rfl

theorem Holds.merge {es : List (Text × Toml.Value)} {ass : List (List Assignment)}
    (h : root.Holds v) (has : es.mapM Assignment.ofEntry? = some ass) (name : Text) :
    ∃ root', root.merge (ofTomlEntries name es) = .ok root' ∧
      root'.Holds (ass.flatten.foldl Assignment.overlay v) := by
  induction es generalizing root v ass with
  | nil =>
    obtain rfl := Option.some.inj has
    exact ⟨root, rfl, h⟩
  | cons e es ih =>
    obtain ⟨key, value⟩ := e
    simp only [List.mapM_cons, Option.bind_eq_bind, Option.bind_eq_some_iff, Option.pure_def,
      Option.some.injEq] at has
    obtain ⟨as, ha, ass, has, rfl⟩ := has
    obtain ⟨path, hpath⟩ : ∃ path, KeyPath.parse key = .ok path := by
      simp only [Assignment.ofEntry?, Option.bind_eq_bind, Option.bind_eq_some_iff] at ha
      obtain ⟨path, hpath, -⟩ := ha
      cases hparse : KeyPath.parse key with
      | ok p => exact ⟨p, rfl⟩
      | error => rw [hparse] at hpath; cases hpath
    obtain ⟨root', hset, hroot⟩ := h.set_entry hpath ha name
    obtain ⟨root'', hmerge, hroot⟩ := ih hroot has
    refine ⟨root'', ?_, ?_⟩
    · rw [ofTomlEntries, merge_cons hpath, hset]
      exact hmerge
    · rw [List.flatten_cons, List.foldl_append]
      exact hroot

end Tree

end PatternAnatomy
