import InstallerLint.Text.Find

/-!
# Globs

Patterns over slash-separated paths: `?` and `*` stay inside a part of the path, `**` as a whole
part stands for any number of parts, brackets give classes of characters and braces alternatives.

**Matching.**  One pass over pattern and path that remembers the last star and the last double
star, and goes back to them when it is stuck.  An alternative is tried by putting it in place of
its braces.  A malformed pattern matches nothing.
-/

namespace InstallerLint
namespace Glob

/-- What a match comes to. -/
inductive Verdict where
  | yes
  | no
  | bad
  deriving DecidableEq, Repr

/-- Skips a class of characters from behind its bracket; none if it does not end. -/
def skipClass : List Char → Option (List Char)
  | [] => none
  | '\\' :: _ :: rest => skipClass rest
  | ['\\'] => none
  | c :: rest => if c = ']' then some rest else skipClass rest

/-- The inside of a class, behind a sign of negation; none if it is empty. -/
def classBody : List Char → Option (List Char)
  | [] => none
  | c :: rest =>
    let body := if c = '^' || c = '!' then rest else c :: rest
    match body with
    | [] => none
    | d :: _ => if d = ']' then none else some body

/-- Whether brackets and braces are closed, `depth` braces being open. -/
def isValidFrom : (fuel depth : Nat) → List Char → Bool
  | _, depth, [] => depth = 0
  | 0, _, _ => false
  | fuel + 1, depth, c :: rest =>
    if c = '\\' then !rest.isEmpty && isValidFrom fuel depth rest.tail
    else if c = '[' then
      match (classBody rest).bind skipClass with
      | some rest => isValidFrom fuel depth rest
      | none => false
    else if c = '\x7b' then isValidFrom fuel (depth + 1) rest
    else if c = '\x7d' then depth ≠ 0 && isValidFrom fuel (depth - 1) rest
    else isValidFrom fuel depth rest

/-- Whether a pattern is well-formed. -/
def isValidPart (cs : List Char) : Bool := isValidFrom (cs.length + 1) 0 cs

/-- Whether a pattern is well-formed. -/
def isValid (pattern : String) : Bool := isValidPart pattern.toList

/-- The first character of a pattern and what follows; past the end there is no valid one. -/
def next : List Char → Char × List Char
  | [] => ('\uFFFD', [])
  | c :: rest => (c, rest)

/-- Whether a character is in a class, and what is left of the pattern when that is known. -/
def inClass (c : Char) : (fuel : Nat) → (last : Option Char) → List Char → Bool × List Char
  | 0, _, cs => (false, cs)
  | _ + 1, _, [] => (false, [])
  | fuel + 1, last, p :: rest =>
    if p = ']' then (false, p :: rest)
    else
      match last, p, rest with
      | some low, '-', d :: more =>
        if d = ']' then
          if c = '-' then (true, rest) else inClass c fuel (some '-') rest
        else
          let (high, rest) := next (if d = '\\' then more else rest)
          if low ≤ c && c ≤ high then (true, rest) else inClass c fuel none rest
      | _, p, rest =>
        let (p, rest) := if p = '\\' then next rest else (p, rest)
        if p = c then (true, rest) else inClass c fuel (some p) rest

/-- Splits the inside of braces at its own commas; `depth` further braces are open and `piece` is
the current alternative, last character first.  Gives also what follows the closing brace; none if
there is no such brace. -/
def alternatives : (fuel depth : Nat) → (piece : List Char) → List Char →
    Option (List (List Char) × List Char)
  | 0, _, _, _ => none
  | _ + 1, _, _, [] => none
  | fuel + 1, depth, piece, c :: rest =>
    if c = '\\' then
      match rest with
      | d :: rest => alternatives fuel depth (d :: c :: piece) rest
      | [] => none
    else if c = '\x7b' then alternatives fuel (depth + 1) (c :: piece) rest
    else if c = '\x7d' then
      if depth = 0 then some ([piece.reverse], rest)
      else alternatives fuel (depth - 1) (c :: piece) rest
    else if c = ',' && depth = 0 then
      (alternatives fuel depth [] rest).map fun (alts, after) => (piece.reverse :: alts, after)
    else alternatives fuel depth (c :: piece) rest

/-- Patterns that match the end of a path. -/
def emptyPatterns : List (List Char) :=
  ["", "*", "**", "/**", "**/", "/**/"].map String.toList

mutual

/-- Whether what is left of a pattern can match nothing. -/
def matchesEmpty : (fuel : Nat) → List Char → Verdict
  | 0, _ => .no
  | fuel + 1, pattern =>
    if emptyPatterns.contains pattern then .yes
    else
      match pattern with
      | '\x7b' :: rest =>
        match alternatives (rest.length + 1) 0 [] rest with
        | none => .bad
        | some (alts, after) => anyEmpty fuel after alts
      | _ => if isValidPart pattern then .no else .bad

/-- Whether one of some alternatives can match nothing; the first that does, or is malformed,
decides. -/
def anyEmpty : (fuel : Nat) → (after : List Char) → List (List Char) → Verdict
  | _, _, [] => .no
  | 0, _, _ => .no
  | fuel + 1, after, alt :: rest =>
    match matchesEmpty fuel (alt ++ after) with
    | .no => anyEmpty fuel after rest
    | v => v

end

/-- A place to go back to: in the pattern and in the path. -/
structure Mark where
  /-- Characters of the pattern before it. -/
  pattern : Nat
  /-- Characters of the path before it. -/
  name : Nat

/-- Where matching stands. -/
structure State where
  /-- Behind the last double star. -/
  deep : Option Mark
  /-- Behind the last star. -/
  star : Option Mark
  /-- Characters of the pattern that are matched. -/
  pattern : Nat
  /-- Characters of the path that are matched. -/
  name : Nat
  /-- Whether a part of the path starts here. -/
  partStart : Bool

/-- Goes back to the last star, or to the last double star; none if neither helps. -/
def retry (name : List Char) (s : State) : Option State :=
  let viaStar : Option State := do
    let m ← s.star
    let c ← (name.drop m.name).head?
    if c = '/' then none
    else some { s with
      star := some { m with name := m.name + 1 }, pattern := m.pattern, name := m.name + 1
      partStart := false }
  viaStar.orElse fun _ => do
    let m ← s.deep
    let rest := name.drop m.name
    let part := rest.takeWhile (· ≠ '/')
    if part.length < rest.length then
      let at_ := m.name + part.length + 1
      some { s with
        deep := some { m with name := at_ }, pattern := m.pattern, name := at_, partStart := true }
    else none

mutual

/-- Matches from a state on. -/
def run (pattern name : List Char) : (fuel : Nat) → State → Verdict
  | 0, _ => .no
  | fuel + 1, s =>
    let here := pattern.drop s.pattern
    let stuck (at_ : Nat) : Verdict :=
      match retry name s with
      | some s => run pattern name fuel s
      | none =>
        let rest := pattern.drop at_
        if rest.isEmpty || isValidPart rest then .no else .bad
    match name.drop s.name with
    | [] => matchesEmpty (here.length * here.length + 2) here
    | c :: _ =>
      match here with
      | [] => stuck s.pattern
      | '*' :: rest =>
        match rest with
        | '*' :: after =>
          if s.partStart && after.isEmpty then .yes
          else if s.partStart && after.head? = some '/' then
            run pattern name fuel { s with
              deep := some ⟨s.pattern + 3, s.name⟩, star := none, pattern := s.pattern + 3 }
          else run pattern name fuel { s with
              star := some ⟨s.pattern + 2, s.name⟩, pattern := s.pattern + 2, partStart := false }
        | _ => run pattern name fuel { s with
            star := some ⟨s.pattern + 1, s.name⟩, pattern := s.pattern + 1, partStart := false }
      | '?' :: _ =>
        if c = '/' then stuck s.pattern
        else run pattern name fuel { s with
          pattern := s.pattern + 1, name := s.name + 1, partStart := false }
      | '[' :: rest =>
        match classBody rest with
        | none => .bad
        | some body =>
          let negated := body.length < rest.length
          let (found, left) := inClass c (body.length + 1) none body
          if found = negated then
            if left.isEmpty then .bad else stuck (pattern.length - left.length)
          else
            match skipClass left with
            | none => .bad
            | some after => run pattern name fuel { s with
                pattern := pattern.length - after.length, name := s.name + 1, partStart := false }
      | '\x7b' :: rest =>
        match alternatives (rest.length + 1) 0 [] rest with
        | none => .bad
        | some (alts, after) =>
          runAny (pattern.take s.pattern) after name fuel alts { s with partStart := true }
      | '\\' :: rest =>
        match rest with
        | [] => .bad
        | p :: _ =>
          if p = c then run pattern name fuel { s with
            pattern := s.pattern + 2, name := s.name + 1, partStart := p = '/' }
          else stuck s.pattern
      | p :: _ =>
        if p = c then run pattern name fuel { s with
          pattern := s.pattern + 1, name := s.name + 1, partStart := p = '/' }
        else stuck s.pattern

/-- Tries alternatives between what stands before and after their braces; the first that matches,
or is malformed, decides. -/
def runAny (before after name : List Char) : (fuel : Nat) → List (List Char) → State → Verdict
  | _, [], _ => .no
  | 0, _, _ => .no
  | fuel + 1, alt :: rest, s =>
    match run (before ++ alt ++ after) name fuel s with
    | .no => runAny before after name fuel rest s
    | v => v

end

/-- Steps that suffice for a match. -/
def steps (pattern name : List Char) : Nat :=
  (pattern.length + 2) * (name.length + 2) * (name.length + 2) + 2

/-- Matches a path. -/
def verdict (pattern name : String) : Verdict :=
  let p := pattern.toList
  let n := name.toList
  run p n (steps p n) ⟨none, none, 0, 0, true⟩

/-- Whether a path matches. -/
def isMatch (pattern name : String) : Bool := verdict pattern name = .yes

/-- The last part of a path, as it stands. -/
def lastPart (path : String) : String :=
  String.ofList (path.toList.reverse.takeWhile (· ≠ '/')).reverse

/-- Whether a path matches one of some globs; a glob without a slash may match the last part. -/
def matchesAny (globs : List String) (path : String) : Bool :=
  globs.any fun g => g ≠ "" &&
    (isMatch g path || (!g.toList.contains '/' && isMatch g (lastPart path)))

end Glob
end InstallerLint
