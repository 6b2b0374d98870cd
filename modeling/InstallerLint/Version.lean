import InstallerLint.Json.Basic
import InstallerLint.Text.Lines

/-!
# The version of this tool

The version also decides which saved results can be used again.
-/

namespace InstallerLint

/-- The version of this tool. -/
def toolVersion : String := "0.4.0"

/-- What is known of a build. -/
structure BuildInfo where
  version : String
  /-- The commit it was made from; empty when it is not known. -/
  commit : String := ""
  /-- Whether there were changes on top of the commit. -/
  modified : Bool := false
  compiler : String := ""
  platform : String := ""
  deriving DecidableEq, Repr, Inhabited

namespace BuildInfo

/-- How much of a commit's name is shown. -/
def commitStart : Nat := 12

/-- The commit in words; nothing when it is not known. -/
def commitText (b : BuildInfo) : String :=
  if b.commit = "" then ""
  else
    let start := Bytes.toText ((Bytes.ofString b.commit).take commitStart)
    " (" ++ start ++ (if b.modified then ", dirty" else "") ++ ")"

/-- A build in words. -/
def text (b : BuildInfo) : String := b.version ++ b.commitText ++ " " ++ b.compiler ++ " " ++ b.platform

/-- The saved form. -/
def toJson (b : BuildInfo) : Json := .obj <|
  [("version", .str b.version)] ++ Json.optStr "commit" b.commit
  ++ (if b.modified then [("modified", .bool true)] else [])
  ++ [("compiler", .str b.compiler), ("platform", .str b.platform)]

end BuildInfo

end InstallerLint
