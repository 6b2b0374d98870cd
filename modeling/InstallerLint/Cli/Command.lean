import InstallerLint.Baseline
import InstallerLint.Cli.Flag

/-!
# Commands

The tool has commands, and some commands have commands below them.  A command that has a task can
be run; one that has none only groups others.

**Finding a command.**  The arguments that are no flags name it, one level after the other; what
is left over when no name fits are the arguments of the command.
-/

namespace InstallerLint
namespace Cli

/-- What a command does. -/
inductive Task where
  /-- Analyses files and reports the findings. -/
  | analyze
  | baselineCreate
  | baselineStats
  | deps
  | cacheStats
  | cacheClear
  /-- Drops old entries of the cache. -/
  | cacheCleanup
  | rulesList
  | rulesCheck
  | watch
  | version
  | help
  | completion
  deriving DecidableEq, Repr, Inhabited

/-- Which arguments a command takes. -/
inductive ArgRule where
  | any
  /-- None. -/
  | none
  | atMost (n : Nat)
  | atLeast (n : Nat)
  deriving DecidableEq, Repr, Inhabited

/-- A command. -/
structure Command where
  /-- The names that lead to it; none for the tool itself. -/
  path : List String
  /-- How its arguments are shown, with a blank before them. -/
  shownArgs : String := ""
  /-- What it does, in a line. -/
  short : String
  /-- What it does, at length. -/
  long : String := ""
  flags : List Flag := []
  rule : ArgRule := .any
  /-- What it does, unless it only groups others. -/
  task : Option Task := none
  deriving DecidableEq, Repr, Inhabited

/-- The name of the tool. -/
def toolName : String := "wixlint"

/-- The flags that every command has. -/
def commonFlags : List Flag := [
  { name := "config", initial := .text "",
    usage := "config file (default: nearest .wixanalyzer.json/.yaml)" },
  { name := "log-level", initial := .text "warn", usage := "log level (debug, info, warn, error)" },
  { name := "log-json", initial := .switch false, usage := "log as JSON lines" },
  { name := "no-cache", initial := .switch false, usage := "disable the analysis cache" },
  { name := "workers", initial := .number 0,
    usage := "evaluation workers (0 = config or CPU count)" }]

/-- The flag for the form of the output. -/
def formatFlag : Flag :=
  { name := "format", initial := .text "text", usage := "output format: text or json" }

/-- The flag for colours. -/
def colorFlag : Flag :=
  { name := "color", initial := .text "auto", usage := "color severities: auto, always or never" }

/-- The flags of the analysis. -/
def analyzeFlags : List Flag := [
  formatFlag,
  { name := "changed-since-branch", initial := .text "",
    usage := "only report files changed since the merge base with this branch" },
  { name := "changed-head", initial := .number 0,
    usage := "only report files changed in the last N commits" },
  { name := "files-from", initial := .text "",
    usage := "only report the files listed in this file (one per line)" },
  { name := "new-code", initial := .text "",
    usage := "only report diagnostics on lines added since this git ref" },
  { name := "baseline", initial := .text "",
    usage := "baseline file (default: config, then nearest " ++ Baseline.fileName ++ ")" },
  { name := "no-baseline", initial := .switch false, usage := "ignore any baseline" },
  { name := "min-severity", initial := .text "", usage := "drop diagnostics below this severity" },
  { name := "rules", initial := .texts [], usage := "additional rule file (repeatable)" },
  { name := "fix-preview", initial := .switch false,
    usage := "show a diff for every diagnostic with an automatic fix" },
  { name := "metrics", initial := .switch false, usage := "print collected metrics to stderr" },
  { name := "fail-on", initial := .text "high",
    usage := "exit 1 when a diagnostic is at or above this severity (or \"none\")" },
  colorFlag]

/-- The shells that there is a completion script for. -/
def shells : List String := ["bash", "fish", "powershell", "zsh"]

/-- The command for the completion script of a shell. -/
def shellCommand (shell : String) : Command :=
  { path := ["completion", shell]
    short := "Generate the autocompletion script for " ++ shell
    flags := [
      { name := "no-descriptions", initial := .switch false,
        usage := "disable completion descriptions" }]
    rule := .none
    task := some .completion }

/-- All commands, the tool itself first. -/
def commands : List Command := [
  { path := [], short := "Static analysis for WiX installer sources" },
  { path := ["analyze"], shownArgs := " [paths...]"
    short := "Analyze WiX sources and report diagnostics"
    flags := analyzeFlags, task := some .analyze },
  { path := ["baseline"], short := "Accept existing diagnostics so only new ones are reported" },
  { path := ["baseline", "create"], shownArgs := " [paths...]"
    short := "Write a baseline of the current diagnostics"
    flags := [
      { name := "output", letter := some 'o', initial := .text "",
        usage := "baseline path (default: config, then project root)" },
      { name := "description", initial := .text "",
        usage := "free-form note stored in the baseline" }]
    task := some .baselineCreate },
  { path := ["baseline", "stats"], shownArgs := " [file]", short := "Summarize a baseline file"
    rule := .atMost 1, task := some .baselineStats },
  { path := ["deps"], shownArgs := " [paths...]"
    short := "Report prerequisites, merge modules and extensions, and their order"
    flags := [formatFlag,
      { name := "check", initial := .switch false,
        usage := "exit 1 when a dependency cycle exists" }]
    task := some .deps },
  { path := ["cache"], short := "Inspect or reset the analysis cache" },
  { path := ["cache", "stats"], short := "Show where the cache lives and how many files it holds"
    rule := .none, task := some .cacheStats },
  { path := ["cache", "clear"], short := "Remove every cached result"
    rule := .none, task := some .cacheClear },
  { path := ["cache", "cleanup"], short := "Remove entries older than 168h0m0s"
    rule := .none, task := some .cacheCleanup },
  { path := ["rules"], short := "List or check rule sets" },
  { path := ["rules", "list"]
    short := "List every rule and built-in check with its effective selection"
    flags := [formatFlag], rule := .none, task := some .rulesList },
  { path := ["rules", "check"], shownArgs := " FILE...", short := "Validate rule files"
    flags := [
      { name := "strict", initial := .switch false, usage := "treat pattern warnings as errors" }]
    rule := .atLeast 1, task := some .rulesCheck },
  { path := ["watch"], shownArgs := " [path]"
    short := "Analyze, then re-analyze whenever a WiX source changes"
    flags := [formatFlag, colorFlag,
      { name := "debounce", initial := .span 300000000, shownSpan := "300ms",
        usage := "quiet period before re-analyzing" }]
    rule := .atMost 1, task := some .watch },
  { path := ["version"], short := "Print build information"
    flags := [{ name := "json", initial := .switch false, usage := "print as JSON" }]
    rule := .none, task := some .version },
  { path := ["help"], shownArgs := " [command]", short := "Help about any command"
    long := "Help provides help for any command in the application.\nSimply type " ++ toolName
      ++ " help [path to command] for full details."
    task := some .help },
  { path := ["completion"], short := "Generate the autocompletion script for the specified shell"
    long := "Generate the autocompletion script for " ++ toolName ++ " for the specified shell.\n"
      ++ "See each sub-command's help for details on how to use the generated script."
    rule := .none }] ++ shells.map shellCommand

namespace Command

/-- The tool itself. -/
def tool : Command := commands.head?.getD default

/-- The name of a command. -/
def name (c : Command) : String := c.path.getLast?.getD toolName

/-- All names that lead to a command, with the tool's. -/
def title (c : Command) : String := " ".intercalate (toolName :: c.path)

/-- The commands right below a command. -/
def below (c : Command) : List Command :=
  commands.filter fun d => !d.path.isEmpty && d.path.dropLast = c.path

/-- The command of a name right below a command. -/
def child? (c : Command) (name : String) : Option Command := c.below.find? (·.name = name)

/-- Whether a command can be asked for: it does something or groups others; help is left out. -/
def isOffered (c : Command) : Bool := c.task ≠ some .help

/-- The flag that asks for help. -/
def helpFlag (c : Command) : Flag :=
  { name := "help", letter := some 'h', initial := .switch false, usage := "help for " ++ c.name }

/-- The flag that asks for the version; only the tool itself has it. -/
def versionFlags (c : Command) : List Flag :=
  if c.path.isEmpty then [
      { name := "version", letter := some 'v', initial := .switch false,
        usage := "version for " ++ c.name }]
  else []

/-- The flags that help shows as the command's own. -/
def ownFlags (c : Command) : List Flag :=
  c.flags ++ (if c.path.isEmpty then commonFlags else []) ++ c.helpFlag :: c.versionFlags

/-- The flags that help shows as those of all commands. -/
def sharedFlags (c : Command) : List Flag := if c.path.isEmpty then [] else commonFlags

/-- All flags of a command. -/
def allFlags (c : Command) : List Flag := c.ownFlags ++ c.sharedFlags

/-- The flags that count while commands are looked for. -/
def lookupFlags (c : Command) : List Flag := c.flags ++ commonFlags

/-- Whether an argument is a flag that takes the next argument as its value.  A flag that is not
known counts as one. -/
def takesNext (c : Command) (arg : String) : Bool :=
  match arg.toList with
  | '-' :: '-' :: name =>
    !name.contains '=' && !(c.lookupFlags.any fun f => f.name = String.ofList name && f.isSwitch)
  | ['-', l] => l ≠ '=' && !(c.lookupFlags.any fun f => f.letter = some l && f.isSwitch)
  | _ => false

/-- Whether an argument is written like a flag. -/
def looksLikeFlag (arg : String) : Bool := arg.toList.head? = some '-'

/-- The arguments that are neither flags nor values of flags. -/
def plainArgs (c : Command) : List String → List String
  | [] => []
  | arg :: rest =>
    if arg = "--" then []
    else if c.takesNext arg then
      match rest with
      | [] | [_] => []
      | _ :: rest => c.plainArgs rest
    else if arg ≠ "" && !looksLikeFlag arg then arg :: c.plainArgs rest
    else c.plainArgs rest

/-- Arguments without the first plain one of a name. -/
def dropName (c : Command) (name : String) : List String → List String
  | [] => []
  | arg :: rest =>
    if arg = "--" then arg :: rest
    else if c.takesNext arg then
      match rest with
      | [] => [arg]
      | value :: rest => arg :: value :: c.dropName name rest
    else if arg = name && !looksLikeFlag arg then rest
    else arg :: c.dropName name rest

/-- The command that arguments lead to from a command, and the arguments that are left. -/
def follow : (fuel : Nat) → Command → List String → Command × List String
  | 0, c, args => (c, args)
  | fuel + 1, c, args =>
    match c.plainArgs args with
    | [] => (c, args)
    | name :: _ =>
      match c.child? name with
      | some d => follow fuel d (c.dropName name args)
      | none => (c, args)

end Command

/-- The row of an edit-distance table below another, for one more letter. -/
def distanceRow (c : Char) : (left : Nat) → List Nat → List Char → List Nat
  | _, _, [] => []
  | left, diag :: up :: row, d :: ds =>
    let here := if c = d then diag else 1 + min (min left up) diag
    here :: distanceRow c here (up :: row) ds
  | _, _, _ => []

/-- The number of letters to insert, drop or replace to get from a text to another. -/
def distance (s t : List Char) : Nat :=
  let start := List.range (t.length + 1)
  let rows := s.foldl (fun (n, row) c => (n + 1, (n + 1) :: distanceRow c (n + 1) row t))
    ((0, start) : Nat × List Nat)
  rows.2.getLast?.getD 0

namespace Command

/-- How far a name may be from what was written to be offered. -/
def distanceLimit : Nat := 2

/-- The commands right below a command whose names are close to what was written. -/
def closeTo (c : Command) (typed : String) : List String :=
  let word := (Case.lower typed).toList
  ((c.below.filter (·.isOffered)).map (·.name)).filter fun n =>
    distance word n.toList ≤ distanceLimit || word.isPrefixOf n.toList

/-- The message about a command that there is not. -/
def unknownMessage (c : Command) (typed : String) : String :=
  "unknown command " ++ Quoted.quote typed ++ " for " ++ Quoted.quote c.title

/-- What to offer instead. -/
def offer (c : Command) (typed : String) : String :=
  match c.closeTo typed with
  | [] => ""
  | names => "\n\nDid you mean this?\n" ++ String.join (names.map fun n => "\t" ++ n ++ "\n")

/-- The command that arguments name and what is left of them, or why there is none. -/
def find (args : List String) : Except String (Command × List String) :=
  let (c, rest) := follow (args.length + 1) tool args
  match c.plainArgs rest with
  | typed :: _ =>
    if c.path.isEmpty then .error (c.unknownMessage typed ++ c.offer typed) else .ok (c, rest)
  | [] => .ok (c, rest)

/-- Why a command does not take some arguments. -/
def refusal? (c : Command) (args : List String) : Option String :=
  match c.rule, args with
  | .none, typed :: _ => some (c.unknownMessage typed)
  | .atMost n, args =>
    if n < args.length then some ("accepts at most " ++ toString n ++ " arg(s), received "
      ++ toString args.length)
    else none
  | .atLeast n, args =>
    if args.length < n then some ("requires at least " ++ toString n ++ " arg(s), only received "
      ++ toString args.length)
    else none
  | _, _ => none

end Command
end Cli
end InstallerLint
