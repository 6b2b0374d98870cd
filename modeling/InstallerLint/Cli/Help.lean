import InstallerLint.Cli.Command

/-!
# Help

The help of a command: what it does, how it is called, the commands below it and its flags.
Commands and flags come in the order of their names.
-/

namespace InstallerLint
namespace Cli

/-- A text with blanks behind it up to a width. -/
def padded (width : Nat) (s : String) : String :=
  s ++ String.ofList (List.replicate (width - s.length) ' ')

namespace Flag

/-- The kind of value that help shows. -/
def valueName (f : Flag) : String := match f.initial with
  | .switch _ => ""
  | .text _ => " string"
  | .number _ => " int"
  | .texts _ => " strings"
  | .span _ => " duration"

/-- What a flag is set to at first, where that is worth telling. -/
def initialNote (f : Flag) : String := match f.initial with
  | .text s => if s = "" then "" else " (default " ++ Quoted.quote s ++ ")"
  | .number n => if n = 0 then "" else " (default " ++ toString n ++ ")"
  | .span _ => " (default " ++ f.shownSpan ++ ")"
  | _ => ""

/-- A flag with its letter and kind of value. -/
def head (f : Flag) : String := (match f.letter with
  | some c => "  -" ++ String.singleton c ++ ", --" ++ f.name
  | none => "      --" ++ f.name) ++ f.valueName

end Flag

/-- A list of flags. -/
def flagList (flags : List Flag) : String :=
  let width := (flags.map (·.head.length)).foldl max 0
  "\n".intercalate ((Order.sortBy (·.name) flags).map fun f =>
    padded (width + 3) f.head ++ f.usage ++ f.initialNote)

namespace Command

/-- How a command is called. -/
def useLine (c : Command) : String := c.title ++ c.shownArgs ++ " [flags]"

/-- The least width of names in a list of commands. -/
def nameWidth : Nat := 11

/-- The part of the usage about commands below. -/
def belowText (c : Command) : String :=
  if c.below.isEmpty then ""
  else "\n\nAvailable Commands:" ++ String.join ((Order.sortBy (·.name) c.below).map fun d =>
    "\n  " ++ padded nameWidth d.name ++ " " ++ d.short)

/-- How a command is called, with some flags as its own. -/
def usageWith (c : Command) (own : List Flag) : String :=
  "Usage:"
  ++ (if c.task.isSome then "\n  " ++ c.useLine else "")
  ++ (if c.below.isEmpty then "" else "\n  " ++ c.title ++ " [command]")
  ++ c.belowText
  ++ (if own.isEmpty then "" else "\n\nFlags:\n" ++ flagList own)
  ++ (if c.sharedFlags.isEmpty then "" else "\n\nGlobal Flags:\n" ++ flagList c.sharedFlags)
  ++ (if c.below.isEmpty then "" else "\n\nUse \"" ++ c.title
      ++ " [command] --help\" for more information about a command.")
  ++ "\n"

/-- The help of a command. -/
def helpText (c : Command) : String :=
  (if c.long = "" then c.short else c.long) ++ "\n\n" ++ c.usageWith c.ownFlags

/-- A text in the quotes that fit it. -/
def topicQuote (s : String) : String :=
  if s.toList.any fun c => c = '\x60' || c.toNat < 0x20 && c ≠ '\t' || c.toNat = 0x7F
  then Quoted.quote s else "\x60" ++ s ++ "\x60"

/-- What is shown for a command that there is not. -/
def unknownTopic (args : List String) : String :=
  "Unknown help topic [" ++ " ".intercalate (args.map topicQuote) ++ "]\n"
    ++ tool.usageWith commonFlags

end Command
end Cli
end InstallerLint
