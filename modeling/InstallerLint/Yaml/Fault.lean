/-!
# Faults of YAML texts

What can be wrong with the form of a YAML text.  A fault carries the line that its message
names; line zero stands for none.
-/

namespace InstallerLint
namespace Yaml

/-- What is wrong. -/
inductive Problem where
  /-- A byte that starts no character. -/
  | leadingByte
  /-- A byte that does not continue its character. -/
  | trailingByte
  /-- The text ends inside a character. -/
  | incompleteChar
  /-- An unpaired half of a surrogate pair. -/
  | surrogate
  /-- A character that no text may hold. -/
  | controlChar
  /-- A key that ends its line without a colon. -/
  | missingColon
  /-- A dash where no list entry can start. -/
  | entryNotAllowed
  /-- A question mark where no key can start. -/
  | keyNotAllowed
  /-- A colon where no value can start. -/
  | valueNotAllowed
  | tooDeep
  | noToken
  /-- A percent sign without a directive name. -/
  | directiveName
  /-- A directive name that runs into something else. -/
  | directiveChar
  /-- A directive that is not known. -/
  | directiveUnknown
  /-- A directive line that goes on. -/
  | directiveEnd
  /-- A version without digits. -/
  | versionNumber
  /-- A version that is too long. -/
  | versionLong
  /-- A version without its dot. -/
  | versionDot
  /-- A tag directive without its blanks. -/
  | tagBlank
  /-- A tag handle without its mark. -/
  | tagMark
  /-- A tag without a name. -/
  | tagUri
  /-- A tag that is not closed. -/
  | tagClose
  /-- A tag that runs into something else. -/
  | tagEnd
  /-- An escape in a tag that is not two digits. -/
  | tagEscape
  /-- An anchor or alias without a name. -/
  | anchorName
  /-- A block text with the indentation zero. -/
  | indentZero
  /-- A block text's first line that goes on. -/
  | blockEnd
  /-- A tab in the indentation of a block text. -/
  | blockTab
  /-- A document marker inside a quoted text. -/
  | quotedMarker
  /-- A quoted text that does not end. -/
  | quotedEnd
  | escapeChar
  /-- An escape without its digits. -/
  | escapeDigits
  | escapeCode
  /-- A tab in the indentation of a plain text. -/
  | plainTab
  /-- Something other than a new document. -/
  | documentStart
  | versionTwice
  /-- A version other than the supported one. -/
  | versionOther
  /-- Two tag directives of one handle. -/
  | tagTwice
  /-- A tag with an unknown handle. -/
  | tagHandle
  /-- No value where one must stand. -/
  | nodeContent
  /-- No dash where a list goes on. -/
  | dash
  /-- No key where a mapping goes on. -/
  | key
  | listComma
  | mappingComma
  /-- An alias without its anchor. -/
  | unknownAnchor (name : String)
  /-- An anchor that stands for itself. -/
  | selfAnchor (name : String)
  /-- A merge of something that is no mapping. -/
  | mergeTarget
  /-- A value that its tag does not fit. -/
  | tagMismatch (found text wanted : String)
  /-- Binary data that cannot be decoded. -/
  | binary
  deriving DecidableEq, Repr

/-- The wording of a problem. -/
def Problem.message : Problem → String
  | leadingByte => "invalid leading UTF-8 octet"
  | trailingByte => "invalid trailing UTF-8 octet"
  | incompleteChar => "incomplete UTF-8 octet sequence"
  | surrogate => "unexpected low surrogate area"
  | controlChar => "control characters are not allowed"
  | missingColon => "could not find expected ':'"
  | entryNotAllowed => "block sequence entries are not allowed in this context"
  | keyNotAllowed => "mapping keys are not allowed in this context"
  | valueNotAllowed => "mapping values are not allowed in this context"
  | tooDeep => "exceeded max depth of 10000"
  | noToken => "found character that cannot start any token"
  | directiveName => "could not find expected directive name"
  | directiveChar => "found unexpected non-alphabetical character"
  | directiveUnknown => "found unknown directive name"
  | directiveEnd => "did not find expected comment or line break"
  | versionNumber => "did not find expected version number"
  | versionLong => "found extremely long version number"
  | versionDot => "did not find expected digit or '.' character"
  | tagBlank => "did not find expected whitespace"
  | tagMark => "did not find expected '!'"
  | tagUri => "did not find expected tag URI"
  | tagClose => "did not find the expected '>'"
  | tagEnd => "did not find expected whitespace or line break"
  | tagEscape => "did not find URI escaped octet"
  | anchorName => "did not find expected alphabetic or numeric character"
  | indentZero => "found an indentation indicator equal to 0"
  | blockEnd => "did not find expected comment or line break"
  | blockTab => "found a tab character where an indentation space is expected"
  | quotedMarker => "found unexpected document indicator"
  | quotedEnd => "found unexpected end of stream"
  | escapeChar => "found unknown escape character"
  | escapeDigits => "did not find expected hexdecimal number"
  | escapeCode => "found invalid Unicode character escape code"
  | plainTab => "found a tab character that violates indentation"
  | documentStart => "did not find expected <document start>"
  | versionTwice => "found duplicate %YAML directive"
  | versionOther => "found incompatible YAML document"
  | tagTwice => "found duplicate %TAG directive"
  | tagHandle => "found undefined tag handle"
  | nodeContent => "did not find expected node content"
  | dash => "did not find expected '-' indicator"
  | key => "did not find expected key"
  | listComma => "did not find expected ',' or ']'"
  | mappingComma => "did not find expected ',' or '\x7d'"
  | unknownAnchor name => "unknown anchor '" ++ name ++ "' referenced"
  | selfAnchor name => "anchor '" ++ name ++ "' value contains itself"
  | mergeTarget => "map merge requires map or sequence of maps as the value"
  | tagMismatch found text wanted =>
    "cannot decode " ++ found ++ " \x60" ++ text ++ "\x60 as a " ++ wanted
  | binary => "!!binary value contains invalid base64 data"

/-- A problem and the line that its message names. -/
structure Fault where
  /-- The line, zero for none. -/
  line : Nat
  problem : Problem
  deriving DecidableEq, Repr

namespace Fault

/-- The wording of a fault. -/
def message (f : Fault) : String :=
  "yaml: " ++ (if f.line = 0 then "" else "line " ++ toString f.line ++ ": ") ++ f.problem.message

/-- A fault met while reading characters, lines counted from zero: the start of what was being
read counts, then the place itself; the first line is named by neither. -/
def ofScan (start here : Nat) (problem : Problem) : Fault :=
  ⟨if start ≠ 0 then start + 1 else if here ≠ 0 then here + 1 else 0, problem⟩

/-- A fault in the arrangement of tokens. -/
def ofTokens (start here : Nat) (problem : Problem) : Fault :=
  ⟨if start ≠ 0 then start else here, problem⟩

end Fault

end Yaml
end InstallerLint
