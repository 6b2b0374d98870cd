/-!
# Matching two sequences

Finds what two sequences have in common: the longest common run, and then the same on both
sides of it.  Among runs of equal length the first one counts.

**Frequent items.**  In a second sequence of two hundred items or more, items that make up more
than one per cent of it do not start a run; they only extend one.
-/

namespace InstallerLint
namespace Diff

/-- A common run: where it starts in each sequence and how long it is. -/
structure Run where
  /-- Start in the first sequence. -/
  left : Nat
  right : Nat
  size : Nat
  deriving DecidableEq, Repr, Inhabited

/-- A part of each of two sequences. -/
structure Window where
  /-- Start in the first. -/
  leftLo : Nat
  /-- End in the first. -/
  leftHi : Nat
  rightLo : Nat
  rightHi : Nat

/-- The length from which frequent items are set apart. -/
def frequencyLimit : Nat := 200

/-- Two sequences by the numbers of their items, and where each number stands in the second. -/
structure Pair where
  /-- The first sequence. -/
  left : Array Nat
  right : Array Nat
  /-- The places of each number that may start a run. -/
  places : Array (List Nat)

namespace Pair

/-- Numbers the items of a sequence. -/
def number {α : Type} [BEq α] (names : List α) (l : List α) : Array Nat :=
  (l.map fun x => names.idxOf x).toArray

/-- The different items of a sequence. -/
def distinct {α : Type} [BEq α] (l : List α) : List α := l.eraseDups

/-- The places of each number. -/
def placesOf (count : Nat) (right : Array Nat) : Array (List Nat) :=
  let places := (right.toList.zipIdx.reverse).foldl
    (fun (ps : Array (List Nat)) (x, j) => ps.modify x (j :: ·)) (Array.replicate count [])
  if frequencyLimit ≤ right.size then
    places.map fun js => if right.size / 100 + 1 < js.length then [] else js
  else places

/-- Two sequences ready to be matched. -/
def ofLists {α : Type} [BEq α] (left right : List α) : Pair :=
  let names := distinct right
  let rightNumbers := number names right
  ⟨number names left, rightNumbers, placesOf (names.length + 1) rightNumbers⟩

/-- Whether two places hold the same item; items that the second sequence lacks match nothing. -/
def same (p : Pair) (i j : Nat) : Bool :=
  match p.left[i]?, p.right[j]? with
  | some x, some y => x == y
  | _, _ => false

/-- One row: the lengths of the runs that end at item `i` of the first sequence, and the best run
so far. -/
def row (w : Window) (i : Nat) (before : List (Nat × Nat)) :
    List Nat → Run → List (Nat × Nat) × Run
  | [], best => ([], best)
  | j :: js, best =>
    if j < w.rightLo then row w i before js best
    else if w.rightHi ≤ j then ([], best)
    else
      let k := (if j = 0 then 0 else (before.lookup (j - 1)).getD 0) + 1
      let best := if best.size < k then ⟨i + 1 - k, j + 1 - k, k⟩ else best
      let (rest, best) := row w i before js best
      ((j, k) :: rest, best)

/-- The best run over `n` rows from `i` on. -/
def rows (p : Pair) (w : Window) : (n i : Nat) → List (Nat × Nat) → Run → Run
  | 0, _, _, best => best
  | n + 1, i, before, best =>
    let js := ((p.left[i]?).bind fun x => p.places[x]?).getD []
    let (now, best) := row w i before js best
    rows p w n (i + 1) now best

/-- Lengthens a run to the left, at most `n` items. -/
def growLeft (p : Pair) (w : Window) : (n : Nat) → Run → Run
  | 0, r => r
  | n + 1, r =>
    if w.leftLo < r.left && w.rightLo < r.right && p.same (r.left - 1) (r.right - 1) then
      growLeft p w n ⟨r.left - 1, r.right - 1, r.size + 1⟩
    else r

/-- Lengthens a run to the right, at most `n` items. -/
def growRight (p : Pair) (w : Window) : (n : Nat) → Run → Run
  | 0, r => r
  | n + 1, r =>
    if r.left + r.size < w.leftHi && r.right + r.size < w.rightHi
        && p.same (r.left + r.size) (r.right + r.size) then
      growRight p w n { r with size := r.size + 1 }
    else r

/-- The longest common run in a window. -/
def longest (p : Pair) (w : Window) : Run :=
  let found := rows p w (w.leftHi - w.leftLo) w.leftLo [] ⟨w.leftLo, w.rightLo, 0⟩
  growRight p w (w.leftHi - w.leftLo) (growLeft p w (w.leftHi - w.leftLo) found)

/-- The common runs in a window in order. -/
def runsIn (p : Pair) : (fuel : Nat) → Window → List Run
  | 0, _ => []
  | fuel + 1, w =>
    let r := p.longest w
    if r.size = 0 then []
    else
      let before :=
        if w.leftLo < r.left && w.rightLo < r.right then
          runsIn p fuel ⟨w.leftLo, r.left, w.rightLo, r.right⟩ else []
      let after :=
        if r.left + r.size < w.leftHi && r.right + r.size < w.rightHi then
          runsIn p fuel ⟨r.left + r.size, w.leftHi, r.right + r.size, w.rightHi⟩ else []
      before ++ r :: after

/-- Joins runs that follow each other without a gap. -/
def joined : List Run → List Run
  | [] => []
  | r :: rest =>
    match joined rest with
    | [] => [r]
    | s :: more =>
      if r.left + r.size = s.left && r.right + r.size = s.right then
        ⟨r.left, r.right, r.size + s.size⟩ :: more
      else r :: s :: more

/-- The common runs of two sequences. -/
def runs (p : Pair) : List Run :=
  joined (p.runsIn (p.left.size + 1) ⟨0, p.left.size, 0, p.right.size⟩)

end Pair

/-- The common runs of two lists. -/
def runs {α : Type} [BEq α] (left right : List α) : List Run := (Pair.ofLists left right).runs

end Diff
end InstallerLint
