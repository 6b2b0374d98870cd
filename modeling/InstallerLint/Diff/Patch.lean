import InstallerLint.Text.Blank
import InstallerLint.Text.Find
import InstallerLint.Text.Quoted

/-!
# Reading unified patches

A patch holds the changes of several files: for each some lines of any kind, two header lines
with the names of the old and the new file, and hunks.  A file whose content does not change has
only the first kind of lines, which then tell its names.

**Hunks.**  A hunk says at which line of the new file it starts; its body goes on to the next
hunk, the next file or the end.  The mark that a file does not end in a line break takes the
line break from the line before it.
-/

namespace InstallerLint
namespace Patch

/-- Changed lines that stand together. -/
structure Hunk where
  /-- The first line in the new file. -/
  newStart : Int
  body : Bytes
  deriving DecidableEq, Repr

/-- The changes of one file. -/
structure FileChange where
  /-- The name of the new file; empty when it is not known. -/
  newName : String
  hunks : List Hunk
  deriving DecidableEq, Repr

/-- How far a reader has come: lines and bytes without line breaks. -/
structure Place where
  line : Nat := 0
  /-- Bytes. -/
  offset : Nat := 0
  deriving DecidableEq, Repr

/-- The place after one more line. -/
def Place.next (p : Place) (line : Bytes) : Place := ⟨p.line + 1, p.offset + line.length⟩

/-- Why a patch cannot be read. -/
inductive Error where
  /-- A header line is not what it should be. -/
  | fileHeader (at_ : Place)
  /-- The line that opens a hunk does not have its form. -/
  | hunkHeader (at_ : Place) (line : String)
  /-- A number in it cannot be read. -/
  | hunkNumber (reason : String)
  | time (text : String)
  deriving DecidableEq, Repr

/-- The wording of a place. -/
def Place.text (p : Place) : String :=
  "line " ++ toString p.line ++ ", char " ++ toString p.offset ++ ": "

/-- The layout of times in headers. -/
def timeLayout : String := "2006-01-02 15:04:05 -0700"

/-- The wording of an error. -/
def Error.message : Error → String
  | fileHeader p => p.text ++ "bad file header"
  | hunkHeader p line => p.text ++ "bad hunk header: " ++ line
  | hunkNumber reason => reason
  | time t => "parsing time " ++ Quoted.quote t ++ " as " ++ Quoted.quote timeLayout
      ++ ": cannot parse " ++ Quoted.quote t ++ " as \"2006\""

/-- A line without the carriage return at its end. -/
def dropReturn (line : Bytes) : Bytes := if line.getLast? = some 13 then line.dropLast else line

/-- The lines of a text; only a last line without a line break keeps a carriage return. -/
def lines (s : Bytes) : List Bytes :=
  match s.splitLF.reverse with
  | [] => []
  | last :: front =>
    (front.map dropReturn).reverse ++ (if last.isEmpty then [] else [last])

/-- Whether a line starts with a text. -/
def begins (line : Bytes) (start : String) : Bool := line.startsWith (Bytes.ofString start)

/-- Two digits below a bound. -/
def twoDigits? (low high : Nat) : List Char → Option (Nat × List Char)
  | a :: b :: rest =>
    if a.isDigit && b.isDigit then
      let n := (a.toNat - 48) * 10 + (b.toNat - 48)
      if low ≤ n && n < high then some (n, rest) else none
    else none
  | _ => none

/-- The days of a month. -/
def monthDays (year month : Nat) : Nat :=
  if month = 2 then
    if year % 4 = 0 && (year % 100 ≠ 0 || year % 400 = 0) then 29 else 28
  else if [4, 6, 9, 11].contains month then 30 else 31

/-- Blanks between two parts of a time. -/
def blanks? : List Char → Option (List Char)
  | ' ' :: rest => some (rest.dropWhile (· = ' '))
  | [] => some []
  | _ => none

/-- The hour, with one digit or two. -/
def hour? : List Char → Option (List Char)
  | a :: b :: rest =>
    if a.isDigit && b.isDigit then (twoDigits? 0 24 (a :: b :: rest)).map Prod.snd
    else if a.isDigit then some (b :: rest) else none
  | _ => none

/-- The part of a second, if there is one. -/
def fraction : List Char → List Char
  | m :: d :: rest => if (m = '.' || m = ',') && d.isDigit then rest.dropWhile Char.isDigit else m :: d :: rest
  | cs => cs

/-- Whether an hour offset follows, or nothing. -/
def isZone : List Char → Bool
  | [] => true
  | ' ' :: cs =>
    match cs.dropWhile (· = ' ') with
    | sign :: zone => (sign = '+' || sign = '-') &&
      (match twoDigits? 0 25 zone with
        | some (_, rest) => (twoDigits? 0 61 rest).any (·.2.isEmpty)
        | none => false)
    | [] => false
  | _ => false

/-- Whether a text is a date with a time of day. -/
def isTime (s : String) : Bool := Option.isSome <| do
  let (century, cs) ← twoDigits? 0 100 s.toList
  let (year, cs) ← twoDigits? 0 100 cs
  let cs ← Find.after? ['-'] cs
  let (month, cs) ← twoDigits? 1 13 cs
  let cs ← Find.after? ['-'] cs
  let (_, cs) ← twoDigits? 1 (monthDays (century * 100 + year) month + 1) cs
  let cs ← blanks? cs
  let cs ← hour? cs
  let cs ← Find.after? [':'] cs
  let (_, cs) ← twoDigits? 0 60 cs
  let cs ← Find.after? [':'] cs
  let (_, cs) ← twoDigits? 0 60 cs
  if isZone (fraction cs) then some () else none

/-- The name in a header line, after its mark; a time may follow it. -/
def headerName (rest : Bytes) : Except Error String :=
  let t := Blank.trim rest.toText
  match Find.cutText? t "\t" with
  | none => .ok t
  | some (name, time) => if isTime time then .ok name else .error (.time time)

/-- A name without its quotes. -/
def plainName (name : String) : String := ((Quoted.unquote? name).map Bytes.toText).getD name

/-- The line that tells of a file that only one side has. -/
def isOnlyIn (line : Bytes) : Bool :=
  ((Bytes.stripFront? (Bytes.ofString "Only in ") line).any fun rest => Find.isIn ": " rest.toText)

/-- What the lines before a header end with. -/
inductive Opening where
  | done (before : List Bytes)
  | nextFile (before : List Bytes) (rest : List Bytes)
  | header (place : Place) (rest : List Bytes)

/-- Reads the lines before a header; a second line that starts a file ends them. -/
def opening (seen : Bool) (before : List Bytes) (p : Place) : List Bytes → Opening
  | [] => .done before.reverse
  | line :: rest =>
    if begins line "diff --git " && seen then .nextFile before.reverse (line :: rest)
    else if begins line "--- " || isOnlyIn line then .header p (line :: rest)
    else opening (seen || begins line "diff --git ") (line :: before) (p.next line) rest

/-- The names of a file whose content does not change, from the lines before its header. -/
def unchangedName? (before : List Bytes) : Option String :=
  match before with
  | first :: more =>
    let has (i : Nat) (start : String) : Bool := (more[i]?).any fun l => begins l start
    let count := before.length
    let binary := count = 3 || (count = 4 && has 2 "Binary files ")
      || (4 < count && has 2 "GIT binary patch")
    let names := (Bytes.stripFront? (Bytes.ofString "diff --git ") first).bind fun t =>
      Find.cutText? t.toText " "
    match names with
    | none => none
    | some (_, new) =>
      if binary && has 0 "new file mode " then some (plainName new)
      else if binary && has 0 "deleted file mode " then some "/dev/null"
      else if count = 4 && has 1 "rename from " && has 2 "rename to " then some (plainName new)
      else if count = 6 && has 1 "rename from " && has 2 "rename to " && has 4 "Binary files " then
        some (plainName new)
      else if (count = 3 && has 1 "Binary files ") || (3 < count && has 1 "GIT binary patch") then
        some (plainName new)
      else if count = 3 && has 0 "old mode " && has 1 "new mode " then some (plainName new)
      else none
  | [] => none

/-- The mark of a last line without a line break. -/
def noNewline : Bytes := Bytes.ofString "\\ No newline at end of file"

/-- Whether a line can stand in a hunk. -/
def isBodyLine : Bytes → Bool
  | [] => true
  | b :: _ => b = 32 || b = 45 || b = 43 || b = 92

/-- Whether the header of another file starts here. -/
def isNextHeader : List Bytes → Bool
  | a :: b :: c :: _ => begins a "---" && begins b "+++" && begins c "@@ "
  | _ => false

/-- The body of a hunk and the lines after it; `old` tells whether the last line was removed. -/
def hunkBody (body : Bytes) (old : Bool) : List Bytes → Bytes × List Bytes
  | [] => (body, [])
  | line :: rest =>
    if isNextHeader (line :: rest) || begins line "@@ " || !isBodyLine line then (body, line :: rest)
    else if line = noNewline then hunkBody (if old then body else body.dropLast) old rest
    else hunkBody (body ++ line ++ [10]) (if line.isEmpty then old else line.head? = some 45) rest

/-- A number of at most 32 bits with a sign. -/
def int32? (cs : List Char) : Except String (Int × List Char) :=
  let cs := cs.dropWhile Blank.isBlank
  let (sign, cs) := match cs with
    | '-' :: rest => (-1, rest)
    | '+' :: rest => (1, rest)
    | _ => ((1 : Int), cs)
  match cs.takeWhile Char.isDigit with
  | [] => .error "expected integer"
  | ds =>
    let n := sign * (ds.foldl (fun (n : Nat) c => n * 10 + (c.toNat - 48)) 0 : Nat)
    if -2147483648 ≤ n && n ≤ 2147483647 then .ok (n, cs.dropWhile Char.isDigit)
    else .error ("integer overflow on token " ++ toString n)

/-- The first line and the number of lines of one side. -/
def sideRange (mark : Char) (s : String) : Except String Int := do
  let s := if s.toList.contains ',' then s else s ++ ",1"
  match s.toList with
  | c :: cs =>
    if c ≠ mark then throw "input does not match format"
    let (start, cs) ← int32? cs
    match cs with
    | ',' :: cs =>
      let (_, cs) ← int32? cs
      if cs.isEmpty then pure start else throw "input does not match format"
    | _ => throw "input does not match format"
  | [] => throw "input does not match format"

/-- The first line in the new file, from the line that opens a hunk. -/
def hunkStart (p : Place) (line : Bytes) : Except Error Int :=
  match Find.pieces ' ' line.toText with
  | "@@" :: old :: new :: "@@" :: _ =>
    match sideRange '-' old with
    | .error e => .error (.hunkNumber e)
    | .ok _ => (sideRange '+' new).mapError .hunkNumber
  | _ => .error (.hunkHeader (p.next line) line.toText)

/-- Hunks and the lines after them. -/
def hunks (p : Place) : (fuel : Nat) → List Bytes → Except Error (List Hunk × List Bytes)
  | 0, ls => .ok ([], ls)
  | _ + 1, [] => .ok ([], [])
  | fuel + 1, line :: rest => do
    if !begins line "@@ " then return ([], line :: rest)
    let start ← hunkStart p line
    let (body, after) := hunkBody [] true rest
    let p' := (rest.take (rest.length - after.length)).foldl Place.next (p.next line)
    let (more, after) ← hunks p' fuel after
    return (⟨start, body⟩ :: more, after)

/-- The files of a patch. -/
def files (p : Place) : (fuel : Nat) → List Bytes → Except Error (List FileChange)
  | 0, _ => .ok []
  | fuel + 1, ls =>
    match opening false [] p ls with
    | .done before => .ok ((unchangedName? before).map fun n => ⟨n, []⟩).toList
    | .nextFile before rest => do
      let more ← files p fuel rest
      return ⟨(unchangedName? before).getD "", []⟩ :: more
    | .header _ [] => .ok []
    | .header q (old :: rest) => do
      if isOnlyIn old then
        let more ← files p fuel rest
        return ⟨"", []⟩ :: more
      let _ ← headerName (old.drop 4)
      match rest with
      | [] => return []
      | new :: rest =>
        if !begins new "+++ " then throw (.fileHeader (q.next old))
        let name := plainName (← headerName (new.drop 4))
        if name = "" then
          let more ← files p fuel rest
          return ⟨"", []⟩ :: more
        let q := (q.next old).next new
        let (hs, after) ← hunks q (rest.length + 1) rest
        let more ← files (if hs.isEmpty then p else q) fuel after
        return ⟨name, hs⟩ :: more

/-- Reads a patch. -/
def parse (s : Bytes) : Except Error (List FileChange) :=
  let ls := lines s
  files {} (ls.length + 1) ls

/-- The numbers of the added lines, counted from a line of the new file. -/
def addedFrom (line : Int) : List Bytes → List Int
  | [] => []
  | l :: ls =>
    match l.head? with
    | some 43 => line :: addedFrom (line + 1) ls
    | some 32 => addedFrom (line + 1) ls
    | _ => addedFrom line ls

/-- The numbers of the lines that a hunk adds. -/
def Hunk.added (h : Hunk) : List Int := addedFrom h.newStart h.body.splitAfterLF

end Patch
end InstallerLint
