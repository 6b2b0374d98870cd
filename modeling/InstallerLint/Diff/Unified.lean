import InstallerLint.Diff.Match
import InstallerLint.Numbers
import InstallerLint.Text.Find
import InstallerLint.Text.Lines

/-!
# Unified patches

The difference of two texts as a patch: two header lines and hunks of kept, removed and added
lines.

**Script.**  The common runs of the lines cut both texts into segments, which are kept or
changed.  The old lines of all segments are the old text, and their new lines the new one.

**Hunks.**  A hunk shows changes with a few kept lines around them; a longer stretch of kept
lines separates two hunks.
-/

namespace InstallerLint
namespace Diff

/-- A stretch of two texts. -/
inductive Segment where
  | keep (lines : List Bytes)
  /-- Lines that are replaced; either side may be empty. -/
  | change (old new : List Bytes)
  deriving DecidableEq, Repr

namespace Segment

/-- The lines of the old text. -/
def old : Segment → List Bytes
  | keep ls => ls
  | change ls _ => ls

/-- The lines of the new text. -/
def new : Segment → List Bytes
  | keep ls => ls
  | change _ ls => ls

/-- Whether the lines are kept. -/
def isKeep : Segment → Bool
  | keep _ => true
  | change .. => false

end Segment

/-- The segments around common runs; `i` and `j` count the lines that are already taken. -/
def segmentsFrom (i j : Nat) (a b : List Bytes) : List Run → List Segment
  | [] => if a.isEmpty && b.isEmpty then [] else [.change a b]
  | r :: rest =>
    let old := a.take (r.left - i)
    let new := b.take (r.right - j)
    let a' := a.drop (r.left - i)
    let b' := b.drop (r.right - j)
    (if old.isEmpty && new.isEmpty then [] else [.change old new])
    ++ .keep (a'.take r.size)
      :: segmentsFrom (r.left + r.size) (r.right + r.size) (a'.drop r.size) (b'.drop r.size) rest

/-- How one list of lines becomes another. -/
def segments (a b : List Bytes) : List Segment := segmentsFrom 0 0 a b (runs a b)

/-- Part of a patch: where it starts in each text, and its segments. -/
structure Hunk where
  /-- Lines of the old text before it. -/
  oldStart : Nat
  /-- Lines of the new text before it. -/
  newStart : Nat
  segments : List Segment
  deriving DecidableEq, Repr

/-- The last lines of kept ones, and how many come before them. -/
def lastLines (n : Nat) (ls : List Bytes) : Nat × List Bytes :=
  (ls.length - n, ls.drop (ls.length - n))

/-- Cuts segments into hunks; `hunk` is the one that is open. -/
def hunksFrom (n i j : Nat) (hunk : Hunk) : List Segment → List Hunk
  | [] => [hunk]
  | s :: rest =>
    match s with
    | .keep ls =>
      if 2 * n < ls.length then
        let (skipped, tail) := lastLines n ls
        { hunk with segments := hunk.segments ++ [.keep (ls.take n)] }
          :: hunksFrom n (i + ls.length) (j + ls.length) ⟨i + skipped, j + skipped, [.keep tail]⟩ rest
      else hunksFrom n (i + ls.length) (j + ls.length)
        { hunk with segments := hunk.segments ++ [s] } rest
    | .change old new =>
      hunksFrom n (i + old.length) (j + new.length)
        { hunk with segments := hunk.segments ++ [s] } rest

/-- Shortens kept lines at the very end. -/
def trimEnd (n : Nat) : List Segment → List Segment
  | [] => []
  | [.keep ls] => [.keep (ls.take n)]
  | s :: rest => s :: trimEnd n rest

/-- The hunks with `n` kept lines around changes. -/
def hunks (n : Nat) (segs : List Segment) : List Hunk :=
  let all := match segs with
    | .keep ls :: rest =>
      let (skipped, tail) := lastLines n ls
      hunksFrom n skipped skipped ⟨skipped, skipped, []⟩ (trimEnd n (.keep tail :: rest))
    | segs => hunksFrom n 0 0 ⟨0, 0, []⟩ (trimEnd n segs)
  all.filter fun h => h.segments.any fun s => !s.isKeep

/-- A range of lines: its first line and its length, which is left out when it is one. -/
def rangeText (start length : Nat) : String :=
  if length = 1 then toString (start + 1)
  else toString (if length = 0 then start else start + 1) ++ "," ++ toString length

/-- Lines with a sign before each. -/
def signed (sign : UInt8) (ls : List Bytes) : Bytes := ls.flatMap (sign :: ·)

/-- A segment as it is shown. -/
def Segment.body : Segment → Bytes
  | .keep ls => signed 0x20 ls
  | .change old new => signed 0x2D old ++ signed 0x2B new

/-- A hunk with its header. -/
def Hunk.body (h : Hunk) : Bytes :=
  let oldSize := Numbers.total (h.segments.map (·.old.length))
  let newSize := Numbers.total (h.segments.map (·.new.length))
  Bytes.ofString ("@@ -" ++ rangeText h.oldStart oldSize ++ " +" ++ rangeText h.newStart newSize
    ++ " @@\n") ++ h.segments.flatMap (·.body)

/-- The kept lines around changes unless something else is asked for. -/
def defaultContext : Nat := 3

/-- The context that counts. -/
def contextOf (n : Int) : Nat := if n ≤ 0 then defaultContext else n.toNat

/-- The two header lines. -/
def header (aName bName : String) : Bytes :=
  if aName = "" && bName = "" then []
  else Bytes.ofString ("--- " ++ aName ++ "\n+++ " ++ bName ++ "\n")

/-- The patch between two lists of lines; empty when nothing changes. -/
def patch (aName bName : String) (a b : List Bytes) (context : Int) : Bytes :=
  match hunks (contextOf context) (segments a b) with
  | [] => []
  | hs => header aName bName ++ hs.flatMap (·.body)

/-- What stands for a patch that is too long. -/
def omitted (aName bName : String) : Bytes :=
  Bytes.ofString ("--- " ++ aName ++ "\n+++ " ++ bName ++ "\n@@\n# diff omitted\n")

/-- Whether texts are too long for a patch. -/
def isOversize (maxBytes : Int) (size : Nat) : Bool := maxBytes > 0 && (size : Int) > maxBytes

/-- The patch between two texts, and whether it was left out because they are too long. -/
def unified (aName bName : String) (a b : Bytes) (maxBytes context : Int) : Bytes × Bool :=
  if isOversize maxBytes (a.length + b.length) then (omitted aName bName, true)
  else (patch aName bName (Lines.split a) (Lines.split b) context, false)

/-- The patch that adds a whole text. -/
def added (bName : String) (b : Bytes) (maxBytes context : Int) : Bytes × Bool :=
  if isOversize maxBytes b.length then (omitted "/dev/null" bName, true)
  else
    let bName := Find.stripFront bName "b/"
    match patch "/dev/null" bName [] (Lines.split b) context with
    | [] => (omitted "/dev/null" bName, false)
    | body => (body, false)

end Diff
end InstallerLint
