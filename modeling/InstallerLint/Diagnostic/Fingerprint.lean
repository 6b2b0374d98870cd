import InstallerLint.Diagnostic.Basic
import InstallerLint.Hash.Xxh3
import InstallerLint.Path
import InstallerLint.Text.Lines

/-!
# Fingerprints

A fingerprint recognises a finding again after small changes to its file: it depends on the
rule, the file relative to the project, the region of lines and the start of the message.
-/

namespace InstallerLint
namespace Diagnostic

/-- Lines of one region share their fingerprint. -/
def lineRegion : Int := 5

/-- How much of a message counts. -/
def messageStart : Nat := 50

/-- Backslashes as slashes. -/
def slashes (p : String) : String := String.ofList (p.toList.map fun c => if c = '\\' then '/' else c)

/-- Whether a relative path leaves its base. -/
def leavesBase (rel : String) : Bool := ['.', '.'].isPrefixOf rel.toList

/-- A file as seen from the project, with slashes; a file outside stays as it is. -/
def relativeFile (file base : String) : String :=
  slashes <|
    if base = "" then file
    else
      match Path.relative? base file with
      | some rel => if leavesBase rel then file else rel
      | none => file

/-- What a fingerprint depends on, as one text. -/
def fingerprintText (d : Diagnostic) (base : String) : String :=
  d.ruleId ++ "|" ++ relativeFile d.location.file base ++ "|"
    ++ toString (d.location.line.tdiv lineRegion) ++ "|" ++ Lines.takeText d.message messageStart

/-- The fingerprint under a digest. -/
def fingerprintBy (digest : Bytes → String) (d : Diagnostic) (base : String) : String :=
  digest (Bytes.ofString (fingerprintText d base))

/-- The fingerprint. -/
def fingerprint (d : Diagnostic) (base : String) : String := fingerprintBy Hash.xxh128 d base

/-- A short digest of the whole message. -/
def messageHash (message : String) : String := Hash.xxh64 (Bytes.ofString message)

end Diagnostic
end InstallerLint
