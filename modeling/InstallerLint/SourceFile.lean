import InstallerLint.Path
import InstallerLint.Text.Case

/-!
# Source files

Which files are sources of an installer, and which directories never hold any.
-/

namespace InstallerLint
namespace SourceFile

/-- The endings of sources, includes and translations. -/
def extensions : List String := [".wxs", ".wxi", ".wxl"]

/-- The names of directories that hold no sources. -/
def skippedDirs : List String :=
  [".git", ".hg", ".svn", "node_modules", "target", "bin", "obj", ".wixanalyzer-cache"]

/-- The ending of a path in small letters. -/
def ending (path : String) : String := Case.lower (Path.ext path)

/-- Whether a path has one of some endings. -/
def hasExtension (path : String) (exts : List String) : Bool := exts.contains (ending path)

end SourceFile
end InstallerLint
