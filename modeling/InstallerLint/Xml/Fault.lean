import InstallerLint.Text.Quoted
import InstallerLint.Text.Bytes

/-!
# Faults in markup

Why a text is not well-formed markup.  A fault is found at some byte, and all the bytes from
there on are kept with it, so that the line can be told.
-/

namespace InstallerLint
namespace Xml

/-- A reason to stop reading. -/
inductive Fault where
  /-- The text ended inside of markup or of an element. -/
  | unexpectedEnd
  /-- The text ended inside of a character data section. -/
  | unexpectedEndInCData
  | startNameExpected
  | endNameExpected
  | targetExpected
  /-- No name where an attribute should start. -/
  | attrNameExpected
  /-- An attribute without an equals sign. -/
  | equalsExpected
  /-- An attribute without a quoted value. -/
  | valueExpected
  /-- A slash that does not close the tag. -/
  | closeExpected
  /-- Something between the name of an end tag and its end. -/
  | strayInEndTag (name : String)
  | invalidName (text : String)
  /-- A comment that is not started. -/
  | invalidComment
  /-- Two dashes inside of a comment. -/
  | dashesInComment
  /-- A section other than character data. -/
  | invalidSection
  /-- A less-than sign in a quoted value. -/
  | lessInValue
  /-- The end of a section outside of one. -/
  | sectionEndInText
  /-- A reference that stands for nothing. -/
  | invalidEntity (text : String)
  /-- Bytes that are no characters. -/
  | invalidEncoding
  /-- A character that markup may not hold. -/
  | illegalChar (code : Nat)
  /-- An end tag without a start. -/
  | unexpectedEndTag (name : String)
  /-- An end tag of another element. -/
  | mismatchedTag (opened closed : String)
  /-- An end tag of another name space. -/
  | mismatchedSpace (opened openedSpace closed closedSpace : String)
  /-- A declared version other than 1.0. -/
  | unsupportedVersion (version : String)
  /-- A declared encoding other than UTF-8. -/
  | unsupportedEncoding (encoding : String)
  deriving DecidableEq, Repr

/-- A number in hexadecimal capitals, at least four digits. -/
def codePoint (n : Nat) : String :=
  let digits := (Nat.toDigits 16 n).map Char.toUpper
  String.ofList (List.replicate (4 - digits.length) '0' ++ digits)

/-- The wording of a fault. -/
def Fault.message : Fault → String
  | .unexpectedEnd => "unexpected EOF"
  | .unexpectedEndInCData => "unexpected EOF in CDATA section"
  | .startNameExpected => "expected element name after <"
  | .endNameExpected => "expected element name after </"
  | .targetExpected => "expected target name after <?"
  | .attrNameExpected => "expected attribute name in element"
  | .equalsExpected => "attribute name without = in element"
  | .valueExpected => "unquoted or missing attribute value in element"
  | .closeExpected => "expected /> in element"
  | .strayInEndTag name => "invalid characters between </" ++ name ++ " and >"
  | .invalidName text => "invalid XML name: " ++ text
  | .invalidComment => "invalid sequence <!- not part of <!--"
  | .dashesInComment => "invalid sequence \"--\" not allowed in comments"
  | .invalidSection => "invalid <![ sequence"
  | .lessInValue => "unescaped < inside quoted string"
  | .sectionEndInText => "unescaped ]]> not in CDATA section"
  | .invalidEntity text => "invalid character entity " ++ text
  | .invalidEncoding => "invalid UTF-8"
  | .illegalChar code => "illegal character code U+" ++ codePoint code
  | .unexpectedEndTag name => "unexpected end element </" ++ name ++ ">"
  | .mismatchedTag opened closed => "element <" ++ opened ++ "> closed by </" ++ closed ++ ">"
  | .mismatchedSpace opened openedSpace closed closedSpace =>
    "element <" ++ opened ++ "> in space " ++ openedSpace ++ " closed by </" ++ closed
      ++ "> in space " ++ (if closedSpace = "" then "\"\"" else closedSpace)
  | .unsupportedVersion version =>
    "xml: unsupported version " ++ Quoted.quote version ++ "; only version 1.0 is supported"
  | .unsupportedEncoding encoding =>
    "xml: encoding " ++ Quoted.quote encoding ++ " declared but Decoder.CharsetReader is nil"

/-- Whether the place of a fault is the whole construct and not the byte where it shows. -/
def Fault.isDeclared : Fault → Bool
  | .unsupportedVersion _ => true
  | .unsupportedEncoding _ => true
  | _ => false

/-- A fault with the bytes that had not been read yet. -/
structure Stop where
  fault : Fault
  rest : Bytes
  deriving Repr

end Xml
end InstallerLint
