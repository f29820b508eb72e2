import Mathlib.Tactic.Common
import PatternAnatomy.Settings

namespace PatternAnatomy

namespace Settings

/-- The place of a single setting. -/
inductive Leaf where
  | color (c : Category)
  | format
  | showOffsets
deriving DecidableEq

namespace Leaf

abbrev Value : Leaf → Type
  | color _ => Text
  | format => OutputFormat
  | showOffsets => Bool

def table : Leaf → Text
  | color _ => paletteName
  | format => outputName
  | showOffsets => outputName

def key : Leaf → Text
  | color c => c.key
  | format => "format".toList
  | showOffsets => "show_offsets".toList

def path (k : Leaf) : KeyPath := ⟨k.table, [.member k.key]⟩

def all : List Leaf := Category.all.map color ++ [format, showOffsets]

theorem mem_all (k : Leaf) : k ∈ all := by
  cases k with
  | color c => exact List.mem_append_left _ (List.mem_map_of_mem c.mem_all)
  | format => decide
  | showOffsets => decide

theorem path_injective {k k' : Leaf} (h : k.path = k'.path) : k = k' := by
  have hall : ∀ k ∈ all, ∀ k' ∈ all, k.path = k'.path → k = k' := by decide +kernel
  exact hall k k.mem_all k' k'.mem_all h

theorem eq_of_table_key {k k' : Leaf} (ht : k.table = k'.table) (hk : k.key = k'.key) : k = k' :=
  path_injective (by rw [path, path, ht, hk])

def ofPath? (path : KeyPath) : Option Leaf := all.find? fun k => k.path = path

theorem ofPath?_path (k : Leaf) : ofPath? k.path = some k := by
  have hall : ∀ k ∈ all, ofPath? k.path = some k := by decide +kernel
  exact hall k k.mem_all

theorem path_of_ofPath? {path : KeyPath} {k : Leaf} (h : ofPath? path = some k) : k.path = path :=
  of_decide_eq_true (List.find?_some (p := fun k : Leaf => decide (k.path = path)) h)

theorem parse_name (k : Leaf) : KeyPath.parse (k.table ++ '.' :: k.key) = .ok k.path := by
  have hall : ∀ k ∈ all, KeyPath.parse (k.table ++ '.' :: k.key) = .ok k.path := by decide +kernel
  exact hall k k.mem_all

/-- What a scalar sets the leaf to: a text, the name of a format in any case, a truth value. -/
def read? : (k : Leaf) → Scalar → Option k.Value
  | color _, .text t => some t
  | format, .text t => OutputFormat.ofName? t.lowercase
  | showOffsets, .boolean b => some b
  | _, _ => none

end Leaf

abbrev Leaves := (k : Leaf) → k.Value

def ofLeaves (v : Leaves) : Settings := ⟨fun c => v (.color c), v .format, v .showOffsets⟩

def get (s : Settings) : Leaves
  | .color c => s.colors c
  | .format => s.format
  | .showOffsets => s.showOffsets

theorem get_ofLeaves (v : Leaves) (k : Leaf) : (ofLeaves v).get k = v k := by
  cases k <;> rfl

/-- What is found in the last of the members in which anything is found. -/
def findLast? {α β : Type} (f : α → Option β) (xs : List α) : Option β := xs.reverse.findSome? f

section

variable {α β γ : Type} {f : α → Option β} {x : α} {xs ys : List α}

theorem findLast?_append : findLast? f (xs ++ ys) = (findLast? f ys).or (findLast? f xs) := by
  rw [findLast?, List.reverse_append, List.findSome?_append]
  rfl

theorem findLast?_singleton : findLast? f [x] = f x := by
  rw [findLast?, List.reverse_singleton, List.findSome?_singleton]

theorem findLast?_cons : findLast? f (x :: xs) = (findLast? f xs).or (f x) := by
  rw [← List.singleton_append, findLast?_append, findLast?_singleton]

theorem getD_findLast?_cons (b : β) :
    (findLast? f (x :: xs)).getD b = (findLast? f xs).getD ((f x).getD b) := by
  rw [findLast?_cons]
  cases findLast? f xs <;> rfl

theorem findLast?_filter {p : α → Bool} (h : ∀ x, p x = false → f x = none) :
    findLast? f (xs.filter p) = findLast? f xs := by
  induction xs with
  | nil => rfl
  | cons x xs ih =>
    cases hx : p x with
    | true => rw [List.filter_cons_of_pos hx, findLast?_cons, findLast?_cons, ih]
    | false =>
      rw [List.filter_cons_of_neg (Bool.not_eq_true _ ▸ hx), findLast?_cons, h x hx, ih,
        Option.or_none]

theorem findLast?_filterMap {g : γ → Option α} {zs : List γ} :
    findLast? f (zs.filterMap g) = findLast? (fun z => (g z).bind f) zs := by
  induction zs with
  | nil => rfl
  | cons z zs ih =>
    rw [List.filterMap_cons, findLast?_cons, ← ih]
    cases g z with
    | none => exact (Option.or_none).symm
    | some x => exact findLast?_cons

end

structure Assignment where
  leaf : Leaf
  value : leaf.Value

namespace Assignment

variable {k : Leaf} {a : Assignment} {as : List Assignment} {v : Leaves}

def for? (k : Leaf) (a : Assignment) : Option k.Value :=
  if h : a.leaf = k then some (h ▸ a.value) else none

theorem for?_leaf (a : Assignment) : a.for? a.leaf = some a.value := dif_pos rfl

theorem for?_of_ne (h : a.leaf ≠ k) : a.for? k = none := dif_neg h

/-- What the last of the assignments to a leaf says. -/
def last? (k : Leaf) (as : List Assignment) : Option k.Value := findLast? (for? k) as

def overlay (v : Leaves) (a : Assignment) : Leaves := fun k => (a.for? k).getD (v k)

theorem overlay_leaf (v : Leaves) (a : Assignment) : overlay v a a.leaf = a.value := by
  rw [overlay, for?_leaf, Option.getD_some]

theorem overlay_of_ne (h : a.leaf ≠ k) : overlay v a k = v k := by
  rw [overlay, for?_of_ne h, Option.getD_none]

/-- Of assignments made one after another the last to each leaf counts. -/
theorem foldl_overlay (v : Leaves) (as : List Assignment) (k : Leaf) :
    as.foldl overlay v k = (last? k as).getD (v k) := by
  induction as generalizing v with
  | nil => rfl
  | cons a as ih =>
    rw [List.foldl_cons, ih, last?, last?, getD_findLast?_cons, overlay]

end Assignment

end Settings

namespace Tree

open Settings

variable {root t u : Tree} {key key' name : Text} {v w : Leaves} {k : Leaf} {x : Scalar}
  {file : Option Text}

theorem lookup_cons (key key' : Text) (t : Tree) (es : List (Text × Tree)) :
    List.lookup key' ((key, t) :: es) = if key' = key then some t else es.lookup key' := by
  rw [List.lookup_cons]
  by_cases h : key' = key
  · rw [if_pos h, beq_iff_eq.2 h]
  · rw [if_neg h, beq_eq_false_iff_ne.2 h]

theorem lookup_putEntry (key : Text) (t : Tree) (es : List (Text × Tree)) (key' : Text) :
    (putEntry key t es).lookup key' = if key' = key then some t else es.lookup key' := by
  induction es with
  | nil => exact lookup_cons key key' t []
  | cons e es ih =>
    obtain ⟨k, u⟩ := e
    rw [putEntry, lookup_cons]
    by_cases hk : k = key
    · subst hk
      rw [if_pos rfl, lookup_cons]
      split <;> rfl
    · rw [if_neg hk, lookup_cons, ih]
      by_cases h : key' = k
      · rw [if_pos h, if_neg (h ▸ hk), if_pos h]
      · rw [if_neg h, if_neg h]

theorem get?_put (root : Tree) (key : Text) (t : Tree) (key' : Text) :
    (root.put key t).get? key' = if key' = key then some t else root.get? key' := by
  cases root with
  | table es f => exact lookup_putEntry key t es key'
  | scalar x f => exact lookup_putEntry key t [] key'
  | list ts f => exact lookup_putEntry key t [] key'

theorem get?_put_self (root : Tree) (key : Text) (t : Tree) :
    (root.put key t).get? key = some t := by
  rw [get?_put, if_pos rfl]

theorem get?_put_of_ne (h : key' ≠ key) : (root.put key t).get? key' = root.get? key' := by
  rw [get?_put, if_neg h]

/-- A scalar stands at every leaf, and it sets the leaf to its value. -/
def Holds (root : Tree) (v : Leaves) : Prop :=
  ∀ k : Leaf, ∃ t x file, root.get? k.table = some t ∧ t.get? k.key = some (.scalar x file) ∧
    k.read? x = some (v k)

/-- Setting one leaf in its table leaves all others alone. -/
theorem Holds.put_leaf (h : (root.put k.table t).Holds v) {y : k.Value}
    (hy : k.read? x = some y) :
    (root.put k.table (t.put k.key (.scalar x file))).Holds (Assignment.overlay v ⟨k, y⟩) := by
  intro k'
  obtain ⟨t', x', file', ht', hx', hread⟩ := h k'
  by_cases hk : k = k'
  · subst hk
    refine ⟨_, x, file, get?_put_self _ _ _, get?_put_self _ _ _, ?_⟩
    rw [Assignment.overlay_leaf (a := ⟨k, y⟩), hy]
  · rw [Assignment.overlay_of_ne (a := ⟨k, y⟩) hk]
    by_cases htable : k'.table = k.table
    · have hkey : k'.key ≠ k.key := fun hkey => hk (Leaf.eq_of_table_key htable.symm hkey.symm)
      rw [htable, get?_put_self] at ht'
      obtain rfl := Option.some.inj ht'
      refine ⟨t.put k.key (.scalar x file), x', file', ?_, ?_, hread⟩
      · rw [htable, get?_put_self]
      · rw [get?_put_of_ne hkey, hx']
    · rw [get?_put_of_ne htable] at ht'
      exact ⟨t', x', file', by rw [get?_put_of_ne htable, ht'], hx', hread⟩

theorem Holds.put_same (h : root.Holds v) (ht : root.get? name = some t) :
    (root.put name t).Holds v := by
  intro k
  obtain ⟨t', x, file, ht', hx, hread⟩ := h k
  refine ⟨t', x, file, ?_, hx, hread⟩
  rw [get?_put]
  split
  next hname => rw [← ht', hname, ht]
  next => exact ht'

end Tree

end PatternAnatomy
