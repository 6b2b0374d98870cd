import InstallerLint.Text.Case
import InstallerLint.Text.Ranges

/-!
# Patterns

Regular expressions and whether one matches somewhere in a text.

**Matching.**  A pattern moves a set of positions: `ends` takes the positions where a match may
start to those where it may end.  Sets are lists of truth values, one for each position of the
text including its end.  Repetition without a bound is iterated as often as the text is long,
which reaches every position it can.
-/

namespace InstallerLint

/-- Characters given by ranges, possibly up to letter case, possibly all others. -/
structure CharItem where
  ranges : Ranges
  fold : Bool
  /-- Whether the other characters are meant. -/
  negated : Bool
  deriving Repr, DecidableEq

/-- A class of characters: one of several items, or none of them. -/
structure CharClass where
  items : List CharItem
  /-- Whether the other characters are meant. -/
  negated : Bool
  deriving Repr, DecidableEq

/-- Conditions on a position. -/
inductive Anchor where
  | beginText
  | endText
  | beginLine
  | endLine
  /-- Between a word character and another. -/
  | wordBoundary
  /-- Not between a word character and another. -/
  | noWordBoundary
  deriving Repr, DecidableEq

/-- A regular expression. -/
inductive Pattern where
  | empty
  | char (c : CharClass)
  | anchor (a : Anchor)
  | seq (a b : Pattern)
  | alt (a b : Pattern)
  /-- Repeated at least `min` and at most `max` times. -/
  | rep (min : Nat) (max : Option Nat) (a : Pattern)
  | group (a : Pattern)
  deriving Repr

namespace CharItem

/-- Whether a character belongs to the item. -/
def has (i : CharItem) (c : Char) : Bool :=
  (i.ranges.has c || (i.fold && (Case.orbit c).any i.ranges.has)) != i.negated

end CharItem

namespace CharClass

/-- Whether a character belongs to the class. -/
def has (k : CharClass) (c : Char) : Bool := (k.items.any (·.has c)) != k.negated

/-- A single character. -/
def single (code : Nat) (fold : Bool) : CharClass := ⟨[⟨[(code, code)], fold, false⟩], false⟩

/-- Every character. -/
def any : CharClass := ⟨[], true⟩

/-- Every character but the line feed. -/
def notLF : CharClass := ⟨[⟨[(0x0A, 0x0A)], false, false⟩], true⟩

end CharClass

namespace Pattern

/-- Characters of words. -/
def isWord (c : Char) : Bool := c.isAlphanum || c == '_'

/-- Whether an anchor holds between two neighbours; `none` stands for the end of the text. -/
def holds (a : Anchor) (before after : Option Char) : Bool :=
  match a with
  | .beginText => before.isNone
  | .endText => after.isNone
  | .beginLine => before.all (· == '\n')
  | .endLine => after.all (· == '\n')
  | .wordBoundary => (before.any isWord) != (after.any isWord)
  | .noWordBoundary => (before.any isWord) == (after.any isWord)

/-- A set of positions of a text, one truth value for each. -/
abbrev Places := List Bool

/-- Positions of either set. -/
def join (a b : Places) : Places := a.zipWith (· || ·) b

/-- Moves over one character of a class; `first` says whether the first position is reached. -/
def step (k : CharClass) (first : Bool) : List Char → Places → Places
  | [], _ => [first]
  | c :: text, here :: places => first :: step k (here && k.has c) text places
  | _ :: text, [] => first :: step k false text []

/-- Moves over any number of characters of a class. -/
def sweep (k : CharClass) (carry : Bool) : List Char → Places → Places
  | [], here :: _ => [here || carry]
  | [], [] => [carry]
  | c :: text, here :: places =>
    (here || carry) :: sweep k ((here || carry) && k.has c) text places
  | c :: text, [] => carry :: sweep k (carry && k.has c) text []

/-- Keeps the positions where an anchor holds. -/
def filterAnchor (a : Anchor) (before : Option Char) : List Char → Places → Places
  | [], here :: _ => [here && holds a before none]
  | c :: text, here :: places =>
    (here && holds a before (some c)) :: filterAnchor a (some c) text places
  | _, [] => []

/-- Applies a step `n` times. -/
def iterate (f : Places → Places) : Nat → Places → Places
  | 0, ps => ps
  | n + 1, ps => iterate f n (f ps)

/-- Applies a step at most `n` times, all positions on the way included; stops when no new
position is reached. -/
def upTo (f : Places → Places) : Nat → Places → Places
  | 0, ps => ps
  | n + 1, ps =>
    let next := join ps (f ps)
    if next = ps then ps else upTo f n next

/-- Where a match can end that starts at one of the given positions. -/
def ends (text : List Char) : Pattern → Places → Places
  | .empty, ps => ps
  | .char k, ps => step k false text ps
  | .anchor a, ps => filterAnchor a none text ps
  | .seq a b, ps => ends text b (ends text a ps)
  | .alt a b, ps => join (ends text a ps) (ends text b ps)
  | .rep min max a, ps =>
    let start := iterate (ends text a) min ps
    match max, a with
    | none, .char k => sweep k false text start
    | none, a => upTo (ends text a) (text.length + 1) start
    | some n, a => upTo (ends text a) (n - min) start
  | .group a, ps => ends text a ps

/-- Whether the pattern matches somewhere in a text. -/
def isMatch (p : Pattern) (s : String) : Bool :=
  let text := s.toList
  (ends text p (List.replicate (text.length + 1) true)).any id

/-- How an expression joins with its neighbours in a larger one. -/
inductive Joint where
  /-- Nothing; alternatives that are nothing are one. -/
  | empty
  /-- One character; alternatives that are characters are one class. -/
  | char
  /-- A text; with `fold` letter case is ignored.  Texts one after the other are one text, and one
  character alone is also a class. -/
  | text (fold single : Bool)
  /-- A concatenation, which is not an expression of its own inside another one. -/
  | seq
  /-- Alternatives, which are not an expression of their own among others. -/
  | alt
  /-- An expression of its own everywhere. -/
  | other
  deriving Repr, DecidableEq

namespace Joint

/-- Whether alternatives can be one class. -/
def isChar : Joint → Bool
  | char => true
  | text _ single => single
  | _ => false

/-- One after the other. -/
def andThen : Joint → Joint → Joint
  | text f _, text g _ => if f = g then text f false else seq
  | _, _ => seq

/-- One or the other. -/
def orElse (a b : Joint) : Joint :=
  if a.isChar && b.isChar then char
  else if a = empty && b = empty then empty
  else alt

end Joint

/-- How tall an expression is, and how it joins with its neighbours. -/
structure Shape where
  joint : Joint
  height : Nat

namespace Shape

/-- A class of characters. -/
def ofClass (k : CharClass) : Shape :=
  match k with
  | ⟨[⟨[(lo, hi)], fold, false⟩], false⟩ => ⟨if lo = hi then .text fold true else .char, 1⟩
  | _ => ⟨.char, 1⟩

/-- The levels below an expression of kind `j` that has `s` as a part. -/
def under (s : Shape) (j : Joint) : Nat := if s.joint = j then s.height - 1 else s.height

/-- Two parts joined to one expression. -/
def join (j : Joint) (a b : Shape) : Shape :=
  ⟨j, if j = .seq || j = .alt then max (a.under j) (b.under j) + 1 else 1⟩

end Shape

/-- The levels of an expression: a concatenation, and a choice, is one level above its parts. -/
def shape : Pattern → Shape
  | .empty => ⟨.empty, 1⟩
  | .char k => .ofClass k
  | .anchor _ => ⟨.other, 1⟩
  | .seq a b => .join ((shape a).joint.andThen (shape b).joint) (shape a) (shape b)
  | .alt a b => .join ((shape a).joint.orElse (shape b).joint) (shape a) (shape b)
  | .rep _ _ a => ⟨.other, (shape a).height + 1⟩
  | .group a => ⟨.other, (shape a).height + 1⟩

/-- How deep the expression nests. -/
def height (p : Pattern) : Nat := p.shape.height

/-- Whether nested counted repetitions stay below `n` copies. -/
def fits : Nat → Pattern → Bool
  | n, .rep min max a =>
    match max with
    | some 0 => true
    | some m => if n < m then false else fits (if 0 < m then n / m else n) a
    | none => if n < min then false else fits (if 0 < min then n / min else n) a
  | n, .seq a b => fits n a && fits n b
  | n, .alt a b => fits n a && fits n b
  | n, .group a => fits n a
  | _, _ => true

end Pattern

end InstallerLint
