import PatternAnatomy.Node.Decorations
import PatternAnatomy.Node.Label

namespace PatternAnatomy

/-- A part of a tree and the path to it. -/
structure Subject (α : Type) where
  path : Text
  value : α

inductive Mismatch.Cause where
  | count (expected : Nat) (nodes : List Node)
  | noSuchIndex (index size : Nat)
  | nothingAt (offset : Nat) (nodes : List Node)
  | start (index expected : Nat) (node : Node)
  | span (expected : Span) (node : Node)
  | typeName (expected : Text) (node : Node)
  | verbatim (expected actual : Text)
  | special (expected actual : Special)
  | negated (expected actual : Bool)
  | itemCount (expected actual : Nat)
  | single (index : Nat) (expected : Char) (actual : Option Item)
  | range (index : Nat) (first last : Char) (actual : Option Item)
  | bounds (expected actual : Nat × Option Nat)
  | unbounded (expected actual : Bool)
  | lazy (expected actual : Bool)
  | nonCapturing (expected actual : Bool)
  | name (expected actual : Option Text)

structure Mismatch where
  path : Text
  cause : Mismatch.Cause

namespace Mismatch

def showBool (b : Bool) : Text := (if b then "true" else "false").toList

def showOption (render : α → Text) : Option α → Text
  | some a => "Some(".toList ++ render a ++ [')']
  | none => "None".toList

def showSpan (s : Span) : Text :=
  "Span \x7b offset: ".toList ++ Text.ofNat s.offset ++ ", length: ".toList ++
    Text.ofNat s.length ++ " \x7d".toList

def showItem : Item → Text
  | .single c s =>
    "Single(SingleChar \x7b value: ".toList ++ Text.quotedChar c ++ ", span: ".toList ++
      showSpan s ++ " \x7d)".toList
  | .range a b s =>
    "Range(CharRange \x7b start: ".toList ++ Text.quotedChar a ++ ", end: ".toList ++
      Text.quotedChar b ++ ", span: ".toList ++ showSpan s ++ " \x7d)".toList

def showBounds (b : Nat × Option Nat) : Text :=
  '(' :: Text.ofNat b.1 ++ ", ".toList ++ showOption Text.ofNat b.2 ++ [')']

/-- Two values that should be equal, with what they are about. -/
def difference (about left right : Text) : Text :=
  "assertion `left == right` failed: ".toList ++ about ++ "\n  left: ".toList ++ left ++
    "\n right: ".toList ++ right

def bracketed (nodes : List Node) : Text := '[' :: Node.summary nodes ++ [']']

def message (m : Mismatch) : Text :=
  let about (t : Text) : Text := m.path ++ ": ".toList ++ t
  match m.cause with
  | .count n nodes =>
    difference
      (about ("Expected ".toList ++ Text.ofNat n ++ " tokens, found ".toList ++
        Text.ofNat nodes.length ++ ": ".toList ++ bracketed nodes))
      (Text.ofNat nodes.length) (Text.ofNat n)
  | .noSuchIndex i size =>
    about ("Token index ".toList ++ Text.ofNat i ++ " out of bounds (".toList ++
      Text.ofNat size ++ " tokens)".toList)
  | .nothingAt offset nodes =>
    about ("No token covers offset ".toList ++ Text.ofNat offset ++ ": ".toList ++
      bracketed nodes)
  | .start i n node =>
    difference
      (m.path ++ '[' :: Text.ofNat i ++ "]: Expected to start at ".toList ++ Text.ofNat n ++
        ", found ".toList ++ node.render)
      (Text.ofNat node.span.offset) (Text.ofNat n)
  | .span s node =>
    difference (about ("Wrong span for ".toList ++ node.render)) (showSpan node.span) (showSpan s)
  | .typeName t node => about ("Expected ".toList ++ t ++ ", found ".toList ++ node.render)
  | .verbatim e a => difference (about "Verbatim value mismatch".toList) (Text.quoted a)
      (Text.quoted e)
  | .special e a => difference (about "Atomic kind".toList) a.decoration.name e.decoration.name
  | .negated e a => difference (about "CharList exclude flag".toList) (showBool a) (showBool e)
  | .itemCount e a => difference (about "CharList item count".toList) (Text.ofNat a)
      (Text.ofNat e)
  | .single i c a =>
    about ("Expected item ".toList ++ Text.ofNat i ++ " to be ".toList ++ Text.quotedChar c ++
      ", found ".toList ++ showOption showItem a)
  | .range i first last a =>
    about ("Expected item ".toList ++ Text.ofNat i ++ " to be ".toList ++ Text.quotedChar first ++
      '-' :: Text.quotedChar last ++ ", found ".toList ++ showOption showItem a)
  | .bounds e a => difference (about "Quantifier bounds".toList) (showBounds a) (showBounds e)
  | .unbounded e a => difference (about "Quantifier unbounded".toList) (showBool a) (showBool e)
  | .lazy e a => difference (about "Quantifier laziness".toList) (showBool a) (showBool e)
  | .nonCapturing e a => difference (about "Group non-capturing flag".toList) (showBool a)
      (showBool e)
  | .name e a => difference (about "Group name".toList) (showOption Text.quoted a)
      (showOption Text.quoted e)

end Mismatch

abbrev Expectation := Except Mismatch

namespace Subject

def ofNodes (nodes : List Node) : Subject (List Node) := ⟨"tokens".toList, nodes⟩

def require (s : Subject α) (holds : Bool) (otherwise : Mismatch.Cause) : Expectation Unit :=
  if holds then .ok () else .error ⟨s.path, otherwise⟩

def fail (s : Subject α) (cause : Mismatch.Cause) : Expectation β := .error ⟨s.path, cause⟩

section Nodes

variable (s : Subject (List Node))

def count (n : Nat) : Expectation Unit := s.require (s.value.length == n) (.count n s.value)

def nodeAt (i : Nat) : Expectation (Subject Node) :=
  match s.value[i]? with
  | some node => .ok ⟨s.path ++ '[' :: Text.ofNat i ++ [']'], node⟩
  | none => s.fail (.noSuchIndex i s.value.length)

def nodeCovering (offset : Nat) : Expectation (Subject Node) :=
  match s.value.find? (·.span.contains offset) with
  | some node => .ok ⟨s.path ++ '@' :: Text.ofNat offset, node⟩
  | none => s.fail (.nothingAt offset s.value)

def contiguousRest (i next : Nat) : List Node → Expectation Unit
  | [] => .ok ()
  | n :: ns =>
    if n.span.offset = next then contiguousRest (i + 1) n.span.stop ns
    else s.fail (.start i next n)

/-- The first node starts at `offset` and each next one where the one before it stops. -/
def contiguousFrom (offset : Nat) : Expectation Unit := s.contiguousRest 0 offset s.value

end Nodes

section Node

variable (s : Subject Node)

def hasSpan (span : Span) : Expectation Unit := s.require (s.value.span = span) (.span span s.value)

def isOfType (typeName : Text) : Expectation α := s.fail (.typeName typeName s.value)

def isVerbatim (value : Text) : Expectation Unit :=
  match s.value with
  | .verbatim v _ => s.require (v = value) (.verbatim value v)
  | _ => s.isOfType "VerbatimString".toList

def isSpecial (kind : Special) : Expectation Unit :=
  match s.value with
  | .special k _ => s.require (k = kind) (.special kind k)
  | _ => s.isOfType "AtomicSpecial".toList

def charList : Expectation (Subject (List Item × Bool)) :=
  match s.value with
  | .charList items negated _ => .ok ⟨s.path, items, negated⟩
  | _ => s.isOfType "CharList".toList

def quantifier : Expectation (Subject Repetition) :=
  match s.value with
  | .quantifier r _ => .ok ⟨s.path, r⟩
  | _ => s.isOfType "Quantifier".toList

def group : Expectation (Subject (List Node × Bool × Option Text)) :=
  match s.value with
  | .group children nonCapturing name _ => .ok ⟨s.path, children, nonCapturing, name⟩
  | _ => s.isOfType "Group".toList

def alternation : Expectation (Subject (List Node)) :=
  match s.value with
  | .alternation branches _ => .ok ⟨s.path ++ ".alternatives".toList, branches⟩
  | _ => s.isOfType "Alternations".toList

end Node

section CharList

variable (s : Subject (List Item × Bool))

def isNegated (expected : Bool) : Expectation Unit :=
  s.require (s.value.2 = expected) (.negated expected s.value.2)

def itemCount (n : Nat) : Expectation Unit :=
  s.require (s.value.1.length = n) (.itemCount n s.value.1.length)

def itemIsSingle (i : Nat) (c : Char) : Expectation Unit :=
  match s.value.1[i]? with
  | some (.single d t) => s.require (d = c) (.single i c (some (.single d t)))
  | other => s.fail (.single i c other)

def itemIsRange (i : Nat) (first last : Char) : Expectation Unit :=
  match s.value.1[i]? with
  | some (.range a b t) =>
    s.require (a = first ∧ b = last) (.range i first last (some (.range a b t)))
  | other => s.fail (.range i first last other)

end CharList

section Repetition

variable (s : Subject Repetition)

def hasBounds (min : Nat) (max : Option Nat) : Expectation Unit :=
  s.require ((s.value.min, s.value.max) = (min, max))
    (.bounds (min, max) (s.value.min, s.value.max))

def isUnbounded (expected : Bool) : Expectation Unit :=
  s.require (s.value.isUnbounded = expected) (.unbounded expected s.value.isUnbounded)

def isLazy (expected : Bool) : Expectation Unit :=
  s.require (s.value.lazy = expected) (.lazy expected s.value.lazy)

end Repetition

section Group

variable (s : Subject (List Node × Bool × Option Text))

def isNonCapturing (expected : Bool) : Expectation Unit :=
  s.require (s.value.2.1 = expected) (.nonCapturing expected s.value.2.1)

def hasName (expected : Option Text) : Expectation Unit :=
  s.require (s.value.2.2 = expected) (.name expected s.value.2.2)

def children : Subject (List Node) := ⟨s.path ++ ".children".toList, s.value.1⟩

end Group

end Subject

end PatternAnatomy
