import InstallerLint.Log
import InstallerLint.Symbol.Index
import InstallerLint.Walk.Basic

/-!
# Indexing a directory

Adds the sources below a directory to an index, in the order of their paths.  A file that cannot
be read or is no document is left out and logged.
-/

namespace InstallerLint

/-- An index on its way through files. -/
structure Indexing where
  index : SymbolIndex := {}
  count : Nat := 0
  log : List LogEntry := []

namespace Indexing

/-- Adds one file. -/
def addFile (d : Disk) (s : Indexing) (path : String) : Indexing :=
  match d.read path with
  | .error e =>
    { s with log := s.log ++ [.warn "index: skipping unreadable file"
        [("file", path), ("error", "index " ++ path ++ ": " ++ e.message)]] }
  | .ok source =>
    match s.index.addSource source path with
    | .error e =>
      { s with log := s.log ++ [.warn "index: skipping malformed file"
          [("file", path), ("error", e.message)]] }
    | .ok ix => { s with index := ix, count := s.count + 1 }

/-- Adds the sources below a directory. -/
def addDirectory (d : Disk) (root : String) (s : Indexing) : Indexing :=
  let found := Walk.collect d root { extensions := SourceFile.extensions, useIgnoreFile := true }
  (found.map fun f => Path.join [root, f.rel]).foldl (addFile d) s

end Indexing

end InstallerLint
