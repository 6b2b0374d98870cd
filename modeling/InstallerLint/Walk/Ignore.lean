import InstallerLint.Pattern.Parse
import InstallerLint.Text.Blank
import InstallerLint.Text.Bytes
import InstallerLint.Text.Find

/-!
# Ignore files

Each line of an ignore file is a pattern of paths; a line that starts with `!` takes back what
earlier lines ignore.  The last line that matches a path decides.

**Meaning.**  A line is turned into a regular expression: `*` stands for anything without a
slash, `**` between slashes for any directories, and a line without a slash at its start may
match at any depth.  Everything below a match is matched too.  A line that gives no regular
expression is left out.
-/

namespace InstallerLint
namespace Ignore

/-- One line of an ignore file. -/
structure Line where
  pattern : Pattern
  negated : Bool

/-- Whether `*.` stands somewhere. -/
def hasStarDot (cs : List Char) : Bool := (Find.cut? ['*', '.'] cs).isSome

/-- Whether a directory stands before a `*.`. -/
def isStarBelowDir : List Char → Bool
  | [] => false
  | c :: cs =>
    (c ≠ '/' && c ≠ '+' && (match cs with
      | '/' :: rest => hasStarDot rest
      | _ => false)) || isStarBelowDir cs

/-- Stands for a star that is already part of the expression. -/
def starMark : String := "#$~"

/-- The regular expression between the marks of the ends. -/
def core (line : String) : String :=
  let t := Find.replaceAll line "." "\\."
  let t := if Find.startsWith t "/**/" then String.ofList (t.toList.drop 1) else t
  let t := Find.replaceAll t "/**/" "(/|/.+/)"
  let t := Find.replaceAll t "**/" ("(|." ++ starMark ++ "/)")
  let t := Find.replaceAll t "/**" ("(|/." ++ starMark ++ ")")
  let t := Find.replaceAll t "\\*" ("\\" ++ starMark)
  let t := Find.replaceAll t "*" "([^/]*)"
  let t := Find.replaceAll t "?" "\\?"
  Find.replaceAll t starMark "*"

/-- The regular expression of a line. -/
def expression (line : String) : String :=
  let t := core line
  let t := t ++ (if Find.endsWith t "/" then "(|.*)$" else "(|/.*)$")
  match t.toList with
  | '/' :: rest => "^(|/)" ++ String.ofList rest
  | _ => "^(|.*/)" ++ t

/-- A line without the blanks and the carriage returns around it. -/
def trimmed (line : String) : List Char :=
  Blank.trimBy (· = ' ') (Blank.dropEndWhile (· = '\r') line.toList)

/-- A line without a mark at its start. -/
def unmarked : List Char → List Char
  | '#' :: rest => rest
  | '!' :: rest => rest
  | cs => cs

/-- A path with a slash before it when a directory stands before a `*.`. -/
def anchored (cs : List Char) : List Char :=
  if isStarBelowDir cs && cs.head? ≠ some '/' then '/' :: cs else cs

/-- Reads a line; a comment and an empty line say nothing. -/
def Line.parse? (line : String) : Option Line :=
  if Find.startsWith line "#" then none
  else
    match trimmed line with
    | [] => none
    | c :: cs =>
      let body := if c = '!' then cs else c :: cs
      let text := String.ofList (anchored (unmarked body))
      (Pattern.parse? (expression text)).map fun p => ⟨p, c = '!'⟩

/-- The lines of an ignore file. -/
def parse (s : Bytes) : List Line :=
  s.splitLF.filterMap fun l => l.toText?.bind Line.parse?

/-- Whether a path is ignored, given what earlier lines say. -/
def decide (path : String) (ignored : Bool) : List Line → Bool
  | [] => ignored
  | l :: ls => decide path (if l.pattern.isMatch path then !l.negated else ignored) ls

/-- Whether a path is ignored. -/
def ignores (ls : List Line) (path : String) : Bool := decide path false ls

end Ignore
end InstallerLint
