import InstallerLint.Cli.Analyze
import InstallerLint.Cli.Inspect

/-!
# The command line

A run finds its command, reads the flags, and does the task of the command.  It ends with a code:
zero when all is well, one when there are findings that count, two when something failed.
-/

namespace InstallerLint
namespace Cli

/-- How a run ends. -/
structure Outcome where
  code : Nat
  /-- What was written for the user. -/
  out : String
  err : String
  disk : Disk

/-- Does a task. -/
def Task.run (c : Call) : Task → Act Unit
  | analyze => c.runAnalyze
  | baselineCreate => c.runBaselineCreate
  | baselineStats => c.runBaselineStats
  | deps => c.runDeps
  | cacheStats => c.runCacheStats
  | cacheClear => c.runCacheClear
  | cacheCleanup => c.runCacheCleanup
  | rulesList => c.runRulesList
  | rulesCheck => c.runRulesCheck
  | watch => c.runWatch
  | version => c.runVersion
  | help => c.runHelp
  | completion => pure ()

/-- Does the task of a command: its arguments are checked, then the level of the log is read. -/
def Command.run (k : Command) (c : Call) (task : Task) : Act Unit := do
  match k.refusal? c.args with
  | some message => Act.fail message
  | none =>
    let name := c.flags.text "log-level"
    match (if name = "" then some .warning else LogLevel.parse? name) with
    | none => Act.fail (LogLevel.unknownMessage name)
    | some level => task.run { c with level }

/-- Does what arguments ask for. -/
def act (c : Call) (args : List String) : Act Unit := do
  let (k, rest) ← Act.ofExcept id (Command.find args)
  let p ← Act.ofExcept FlagError.message (Parsed.parse k.allFlags rest)
  if p.values.isOn "help" then Act.print k.helpText
  else if p.values.isOn "version" then
    Act.print (toolName ++ " version " ++ toolVersion ++ "\n")
  else
    match k.task with
    | none => Act.print k.helpText
    | some task => k.run { c with flags := p.values, args := p.args } task

/-- Runs the tool with arguments on a disk. -/
def run (env : Environment) (git : List String → StateM Disk GitReply) (args : List String)
    (disk : Disk) : Outcome :=
  let (r, s) := ((act { env, git } args).run).run { disk }
  match r with
  | .ok () => ⟨0, s.out, s.err, s.disk⟩
  | .error .findings => ⟨1, s.out, s.err, s.disk⟩
  | .error (.failed message) => ⟨2, s.out, s.err ++ "error: " ++ message ++ "\n", s.disk⟩

end Cli
end InstallerLint
