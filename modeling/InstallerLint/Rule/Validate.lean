import InstallerLint.Diagnostic.Severity
import InstallerLint.Pattern.Parse

/-!
# Well-formed rule lists

A list of rules is checked as a whole, and every problem is reported.  A pattern that cannot be
read is only a warning.
-/

namespace InstallerLint

/-- What is checked of a rule. -/
structure RuleSpec where
  index : Int
  id : String
  element : String
  severity : String
  category : String
  message : String
  patterns : List String
  deriving Repr, DecidableEq

/-- What can be wrong with a rule. -/
inductive RuleProblem where
  | idEmpty
  /-- The id does not have the required form. -/
  | idForm (id : String)
  | idTwice (first : Int)
  /-- There is no kind of element. -/
  | elementEmpty
  | severityUnknown (name : String)
  | categoryUnknown (name : String)
  | messageEmpty
  deriving Repr, DecidableEq

/-- The wording of a problem. -/
def RuleProblem.message : RuleProblem → String
  | idEmpty => "id must be non-empty"
  | idForm id => "id must look like ABC-123, got " ++ Quoted.quote id
  | idTwice first => "duplicate rule id (first at rules[" ++ toString first ++ "])"
  | elementEmpty => "element must be non-empty (use \"*\" for any element)"
  | severityUnknown name => Severity.Unknown.message ⟨name⟩
  | categoryUnknown name => "unknown category " ++ Quoted.quote name
  | messageEmpty => "message must be non-empty"

namespace RuleSpec

/-- How a rule is named in messages. -/
def label (s : RuleSpec) : String := "rules[" ++ toString s.index ++ "] (" ++ s.id ++ ")"

/-- An ASCII letter. -/
def isLetter (c : Char) : Bool := c.isAlpha

/-- Whether a word is made of letters and digits. -/
def isWord (cs : List Char) : Bool := !cs.isEmpty && cs.all Char.isAlphanum

/-- The form of ids: words of letters and digits between hyphens, a letter first. -/
def isId (id : String) : Bool :=
  id.toList.head?.any isLetter && (id.toList.splitOn '-').all isWord

/-- The problems with the id, given the ids seen before. -/
def idProblems (s : RuleSpec) (seen : List (String × Int)) : List RuleProblem :=
  let id := Blank.trim s.id
  if id = "" then [.idEmpty]
  else if !isId id then [.idForm s.id]
  else
    match seen.lookup id with
    | some first => [.idTwice first]
    | none => []

/-- The problems that do not depend on other rules. -/
def ownProblems (s : RuleSpec) : List RuleProblem :=
  (if Blank.isAllBlank s.element then [.elementEmpty] else [])
  ++ (if s.severity ≠ "" && (Severity.parse? s.severity).isNone then [.severityUnknown s.severity]
    else [])
  ++ (if s.category ≠ "" && !Intent.isKnown s.category then [.categoryUnknown s.category] else [])
  ++ (if Blank.isAllBlank s.message then [.messageEmpty] else [])

/-- The ids seen after a rule. -/
def see (s : RuleSpec) (seen : List (String × Int)) : List (String × Int) :=
  let id := Blank.trim s.id
  if id = "" || !isId id || (seen.lookup id).isSome then seen else (id, s.index) :: seen

/-- All problems of some rules after others. -/
def problemsAfter (seen : List (String × Int)) : List RuleSpec → List (RuleSpec × RuleProblem)
  | [] => []
  | s :: rest =>
    (s.idProblems seen ++ s.ownProblems).map (fun p => (s, p)) ++ problemsAfter (s.see seen) rest

/-- All problems of some rules. -/
def problems (specs : List RuleSpec) : List (RuleSpec × RuleProblem) := problemsAfter [] specs

/-- A problem with the rule it belongs to. -/
def problemText (p : RuleSpec × RuleProblem) : String := p.1.label ++ ": " ++ p.2.message

/-- One warning for each pattern that cannot be read. -/
def warnings (specs : List RuleSpec) : List String :=
  specs.flatMap fun s => s.patterns.flatMap fun p =>
    match Pattern.parse p with
    | .ok _ => []
    | .error e => [s.label ++ ": invalid pattern " ++ Quoted.quote p ++ ": " ++ e.message]

end RuleSpec

end InstallerLint
