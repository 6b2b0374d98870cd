import InstallerLint.Json.Basic
import InstallerLint.Text.Quoted

/-!
# Writing JSON

Two layouts: one line without blanks, and one value per line with an indent of two blanks.  In
texts, markup characters and the two line separators are written as escapes when `markup` is
set, so that the output can stand inside of markup.
-/

namespace InstallerLint
namespace Json

/-- How one character of a text is written. -/
def escape (markup : Bool) (c : Char) : List Char :=
  match c with
  | '"' => ['\\', '"']
  | '\\' => ['\\', '\\']
  | '\n' => ['\\', 'n']
  | '\r' => ['\\', 'r']
  | '\t' => ['\\', 't']
  | _ =>
    if c.toNat = 8 then ['\\', 'b']
    else if c.toNat = 12 then ['\\', 'f']
    else if c.toNat < 0x20 || c = '\u2028' || c = '\u2029'
      || (markup && (c = '<' || c = '>' || c = '&')) then
      '\\' :: 'u' :: Quoted.hexWidth 4 c.toNat
    else [c]

/-- A text between quotes. -/
def quoted (markup : Bool) (s : String) : String :=
  String.ofList ('"' :: (s.toList.flatMap (escape markup) ++ ['"']))

mutual
/-- A value on one line. -/
def compact (markup : Bool) : Json → String
  | .null => "null"
  | .bool b => if b then "true" else "false"
  | .num t => t
  | .str s => quoted markup s
  | .arr l => "[" ++ ",".intercalate (compactItems markup l) ++ "]"
  | .obj ms => "\x7b" ++ ",".intercalate (compactMembers markup ms) ++ "\x7d"

/-- The items of a list, each on one line. -/
def compactItems (markup : Bool) : List Json → List String
  | [] => []
  | j :: l => compact markup j :: compactItems markup l

/-- The members of an object, each on one line. -/
def compactMembers (markup : Bool) : List (String × Json) → List String
  | [] => []
  | (name, j) :: ms => (quoted markup name ++ ":" ++ compact markup j) :: compactMembers markup ms
end

/-- The indent of a level. -/
def pad (level : Nat) : String := String.ofList (List.replicate (2 * level) ' ')

/-- Items between brackets, one on a line. -/
def block (level : Nat) (opening closing : String) (items : List String) : String :=
  match items with
  | [] => opening ++ closing
  | items =>
    opening ++ "\n" ++ ",\n".intercalate (items.map (pad (level + 1) ++ ·)) ++ "\n" ++ pad level
      ++ closing

mutual
/-- A value with one item on a line, at an indent level. -/
def indented (level : Nat) : Json → String
  | .null => "null"
  | .bool b => if b then "true" else "false"
  | .num t => t
  | .str s => quoted true s
  | .arr l => block level "[" "]" (indentedItems (level + 1) l)
  | .obj ms => block level "\x7b" "\x7d" (indentedMembers (level + 1) ms)

/-- The items of a list, each at an indent level. -/
def indentedItems (level : Nat) : List Json → List String
  | [] => []
  | j :: l => indented level j :: indentedItems level l

/-- The members of an object, each at an indent level. -/
def indentedMembers (level : Nat) : List (String × Json) → List String
  | [] => []
  | (name, j) :: ms =>
    (quoted true name ++ ": " ++ indented level j) :: indentedMembers level ms
end

/-- A whole file: the indented value and a line feed. -/
def document (j : Json) : String := indented 0 j ++ "\n"

mutual
/-- The value with the members of all objects in the order of their names. -/
def sorted : Json → Json
  | .arr l => .arr (sortedItems l)
  | .obj ms => .obj ((sortedMembers ms).mergeSort fun a b => decide (a.1 ≤ b.1))
  | j => j

/-- The items with their members in order. -/
def sortedItems : List Json → List Json
  | [] => []
  | j :: l => sorted j :: sortedItems l

/-- The members with the members of their values in order. -/
def sortedMembers : List (String × Json) → List (String × Json)
  | [] => []
  | (name, j) :: ms => (name, sorted j) :: sortedMembers ms
end

end Json
end InstallerLint
