import InstallerLint.Diagnostic.Basic
import InstallerLint.Text.Bytes

/-!
# Suppression comments

Comments in a source can turn findings off:

* `<!-- wix-analyzer-disable-line A, B -->` on its own line;
* `<!-- wix-analyzer-disable-next-line A, B -->`, or `disable` with a list, on the next line;
* `<!-- wix-analyzer-disable -->` on all lines that follow, up to the line of the next
  `<!-- wix-analyzer-enable -->`.

An empty list of rules means every rule.

**Reading.**  Directives are found line by line from left to right.  From them the set of
suppressed lines is built: rules per line, and blocks of lines without exception.
-/

namespace InstallerLint
namespace Suppression

/-- What a directive asks for. -/
inductive Action where
  /-- Turns rules off on the next line. -/
  | disableNextLine
  /-- Turns rules off on this line. -/
  | disableLine
  /-- Turns rules off on the next line, or all of them from there on. -/
  | disable
  | enable
  deriving DecidableEq, Repr

/-- The actions by their words, longer words first. -/
def actions : List (String × Action) := [
  ("disable-next-line", .disableNextLine), ("disable-line", .disableLine),
  ("disable", .disable), ("enable", .enable)]

/-- A directive on a line. -/
structure Directive where
  /-- The line, counted from one. -/
  line : Nat
  action : Action
  /-- The rules it names, in upper case; none means all. -/
  rules : List String
  deriving DecidableEq, Repr

/-- Blanks inside of a line. -/
def isSpace (c : Char) : Bool :=
  c == ' ' || c == '\t' || c == '\n' || c == '\r' || c.toNat == 12

/-- Characters of words. -/
def isWord (c : Char) : Bool := c.isAlphanum || c == '_'

/-- Characters of a list of rules. -/
def isListChar (c : Char) : Bool := isWord c || c == '-' || c == ',' || isSpace c

/-- What follows `p` at the front of `cs`. -/
def strip? : (p cs : List Char) → Option (List Char)
  | [], cs => some cs
  | _ :: _, [] => none
  | a :: p, c :: cs => if a = c then strip? p cs else none

/-- The end of a comment, with blanks before it: what follows. -/
def commentEnd? (cs : List Char) : Option (List Char) :=
  strip? ['-', '-', '>'] (cs.dropWhile isSpace)

/-- The shortest list of rules before the end of the comment, and what follows the comment. -/
def listAndRest? : List Char → Option (List Char × List Char)
  | [] => none
  | c :: cs =>
    match commentEnd? (c :: cs) with
    | some rest => some ([], rest)
    | none =>
      if isListChar c then (listAndRest? cs).map fun (list, rest) => (c :: list, rest) else none

/-- A word of an action, not followed by a word character, then the list and the end. -/
def actionHere? (cs : List Char) : Option (Action × List Char × List Char) :=
  actions.findSome? fun (word, action) => do
    let rest ← strip? word.toList cs
    guard (!(rest.head?.any isWord))
    let (list, rest) ← listAndRest? (rest.dropWhile isSpace)
    return (action, list, rest)

/-- A directive at the front of a line: action, list and what follows. -/
def directiveHere? (cs : List Char) : Option (Action × List Char × List Char) := do
  let rest ← strip? ['<', '!', '-', '-'] cs
  let rest ← strip? "wix-analyzer-".toList (rest.dropWhile isSpace)
  actionHere? rest

/-- The rules named in a list. -/
def ruleNames (list : List Char) : List String :=
  ((list.splitOnP fun c => c == ',' || c == ' ' || c == '\t').filter (· ≠ [])).map fun field =>
    Case.upper (Blank.trim (String.ofList field))

/-- The directives of a line from left to right. -/
def directivesIn (line : Nat) : (fuel : Nat) → List Char → List Directive
  | 0, _ => []
  | _ + 1, [] => []
  | fuel + 1, c :: cs =>
    match directiveHere? (c :: cs) with
    | some (action, list, rest) => ⟨line, action, ruleNames list⟩ :: directivesIn line fuel rest
    | none => directivesIn line fuel cs

/-- The directives of numbered lines. -/
def directivesFrom (line : Nat) : List Bytes → List Directive
  | [] => []
  | text :: lines =>
    let cs := text.toText.toList
    directivesIn line (cs.length + 1) cs ++ directivesFrom (line + 1) lines

/-- The directives of a source in order. -/
def directives (source : Bytes) : List Directive := directivesFrom 1 source.splitLF

/-- Rules that are off; none means all. -/
abbrev RuleSet := List String

/-- Whether a set turns a rule off. -/
def RuleSet.covers (r : RuleSet) (id : String) : Bool := r.isEmpty || r.contains (Case.upper id)

/-- What the directives of a source turn off. -/
structure Set where
  lines : List (Nat × RuleSet)
  /-- Blocks of lines in which all rules are off: first and last line. -/
  blocks : List (Nat × Nat)
  deriving DecidableEq, Repr

namespace Set

/-- Turns rules off on a line, together with those already off there. -/
def addTo (line : Nat) (rules : RuleSet) : List (Nat × RuleSet) → List (Nat × RuleSet)
  | [] => [(line, rules)]
  | (n, current) :: rest =>
    if n = line then
      (n, if current.isEmpty || rules.isEmpty then [] else current ++ rules) :: rest
    else (n, current) :: addTo line rules rest

/-- Turns rules off on a line. -/
def addLine (s : Set) (line : Nat) (rules : RuleSet) : Set :=
  { s with lines := addTo line rules s.lines }

/-- Takes in one directive; the number is the first line of the open block, if there is one. -/
def step : Set × Option Nat → Directive → Set × Option Nat
  | (s, opened), d =>
    match d.action with
    | .enable =>
      match opened with
      | some first => ({ s with blocks := s.blocks ++ [(first, d.line)] }, none)
      | none => (s, none)
    | .disableLine => (s.addLine d.line d.rules, opened)
    | .disableNextLine => (s.addLine (d.line + 1) d.rules, opened)
    | .disable =>
      if d.rules.isEmpty then (s, some (opened.getD (d.line + 1)))
      else (s.addLine (d.line + 1) d.rules, opened)

/-- What directives turn off in a source with this many lines. -/
def ofDirectives (ds : List Directive) (lineCount : Nat) : Set :=
  match ds.foldl step (⟨[], []⟩, none) with
  | (s, some first) => { s with blocks := s.blocks ++ [(first, lineCount + 1)] }
  | (s, none) => s

/-- What a source turns off. -/
def ofSource (source : Bytes) : Set := ofDirectives (directives source) source.splitLF.length

/-- Whether nothing is turned off. -/
def isEmpty (s : Set) : Bool := s.lines.isEmpty && s.blocks.isEmpty

/-- Whether a rule is off on a line. -/
def isSuppressed (s : Set) (ruleId : String) (line : Int) : Bool :=
  (s.lines.any fun (n, rules) => (n : Int) = line && rules.covers ruleId)
    || s.blocks.any fun (first, last) => (first : Int) ≤ line && line ≤ last

/-- The findings that stay and those that are turned off. -/
def split (s : Set) (ds : List Diagnostic) : List Diagnostic × List Diagnostic :=
  ds.partition fun d => !s.isSuppressed d.ruleId d.location.line

end Set

end Suppression
end InstallerLint
