import InstallerLint.Config.Setting
import InstallerLint.Text.Number

/-!
# Settings in TOML

A text of statements, one per line: `key = value`, or a header that names the table which the
statements after it fill.  A header in double brackets opens a new item of a list of tables.

**Reading.**  A statement is read into a *step*, the names on the way and what is done there, and
the steps are applied one after the other to the tables so far.  A name is given a value once.
-/

namespace InstallerLint
namespace Toml

/-- The members of a table. -/
abbrev Table := List (String × Setting)

/-- A blank inside a line. -/
def isGap (c : Char) : Bool := c = ' ' || c = '\t'

/-- A character of a name without quotes. -/
def isBare (c : Char) : Bool := c.isAlphanum || c = '_' || c = '-'

/-- What follows the blanks. -/
def skipGap (cs : List Char) : List Char := cs.dropWhile isGap

/-- What follows an end of a line, if one stands here. -/
def lineEnd? : List Char → Option (List Char)
  | '\n' :: cs => some cs
  | '\r' :: '\n' :: cs => some cs
  | _ => none

/-- What follows blanks, ends of lines and comments. -/
def skipLines : (fuel : Nat) → List Char → List Char
  | 0, cs => cs
  | fuel + 1, cs =>
    match skipGap cs with
    | '#' :: rest => skipLines fuel (rest.dropWhile (· ≠ '\n'))
    | rest =>
      match lineEnd? rest with
      | some rest => skipLines fuel rest
      | none => rest

/-- What follows the end of a statement: a comment, and the end of its line or of the text. -/
def statementEnd? (cs : List Char) : Option (List Char) :=
  match skipGap cs with
  | [] => some []
  | '#' :: rest => some (rest.dropWhile (· ≠ '\n'))
  | rest => lineEnd? rest

/-- The character with a number in base sixteen. -/
def charOf? (digits : List Char) : Option Char :=
  (Yaml.Scalar.digitsIn? 16 digits).bind fun n =>
    if n < 0x110000 && !(0xD800 ≤ n && n < 0xE000) then some (Char.ofNat n) else none

/-- The character that an escape stands for, and what follows it. -/
def escape? : List Char → Option (Char × List Char)
  | 'b' :: cs => some (Char.ofNat 8, cs)
  | 't' :: cs => some ('\t', cs)
  | 'n' :: cs => some ('\n', cs)
  | 'f' :: cs => some (Char.ofNat 12, cs)
  | 'r' :: cs => some ('\r', cs)
  | '"' :: cs => some ('"', cs)
  | '\\' :: cs => some ('\\', cs)
  | 'u' :: cs => if cs.length < 4 then none else (charOf? (cs.take 4)).map fun c => (c, cs.drop 4)
  | 'U' :: cs => if cs.length < 8 then none else (charOf? (cs.take 8)).map fun c => (c, cs.drop 8)
  | _ => none

/-- The text in double quotes from behind the first, and what follows the last. -/
def quoted : (fuel : Nat) → (done : List Char) → List Char → Option (String × List Char)
  | 0, _, _ => none
  | _, _, [] => none
  | _ + 1, done, '"' :: cs => some (String.ofList done.reverse, cs)
  | fuel + 1, done, '\\' :: cs => (escape? cs).bind fun (c, rest) => quoted fuel (c :: done) rest
  | fuel + 1, done, c :: cs =>
    if c = '\n' || (c < ' ' && c ≠ '\t') then none else quoted fuel (c :: done) cs

/-- The text in three double quotes, and what follows them; a backslash at the end of a line joins
it to what comes next. -/
def quotedLines : (fuel : Nat) → (done : List Char) → List Char → Option (String × List Char)
  | 0, _, _ => none
  | _, _, [] => none
  | _ + 1, done, '"' :: '"' :: '"' :: cs =>
    let extra := (cs.takeWhile (· = '"')).take 2
    some (String.ofList (extra ++ done).reverse, cs.drop extra.length)
  | fuel + 1, done, '\\' :: cs =>
    match lineEnd? (skipGap cs) with
    | some rest => quotedLines fuel done (rest.dropWhile fun c => isGap c || c = '\n' || c = '\r')
    | none => (escape? cs).bind fun (c, rest) => quotedLines fuel (c :: done) rest
  | fuel + 1, done, c :: cs => quotedLines fuel (c :: done) cs

/-- The text in three single quotes, and what follows them. -/
def plainLines : (done : List Char) → List Char → Option (String × List Char)
  | _, [] => none
  | done, '\'' :: '\'' :: '\'' :: cs =>
    let extra := (cs.takeWhile (· = '\'')).take 2
    some (String.ofList (extra ++ done).reverse, cs.drop extra.length)
  | done, c :: cs => plainLines (c :: done) cs

/-- The text in single quotes from behind the first, and what follows the last. -/
def plain? (cs : List Char) : Option (String × List Char) :=
  match cs.span fun c => c ≠ '\'' && c ≠ '\n' with
  | (inner, '\'' :: rest) => some (String.ofList inner, rest)
  | _ => none

/-- One name of a key, and what follows it. -/
def name? : List Char → Option (String × List Char)
  | '"' :: cs => quoted (cs.length + 1) [] cs
  | '\'' :: cs => plain? cs
  | cs =>
    match cs.span isBare with
    | ([], _) => none
    | (name, rest) => some (String.ofList name, rest)

/-- The names of a key with points between them, and what follows it and the blanks. -/
def key? : (fuel : Nat) → List Char → Option (List String × List Char)
  | 0, _ => none
  | fuel + 1, cs => do
    let (name, rest) ← name? (skipGap cs)
    match skipGap rest with
    | '.' :: rest =>
      let (more, rest) ← key? fuel rest
      some (name :: more, rest)
    | rest => some ([name], rest)

/-- Whether digits have no zero before them that counts for nothing. -/
def hasPlainFront : List Char → Bool
  | '0' :: c :: _ => c = '.' || c = 'e' || c = 'E'
  | cs => !cs.isEmpty

/-- Whether digits stand on both sides of a point. -/
def pointed (cs : List Char) : Bool :=
  match cs.span (· ≠ '.') with
  | (front, '.' :: c :: _) => front.any Char.isDigit && c.isDigit
  | (_, '.' :: _) => false
  | _ => true

/-- The number that a word stands for. -/
def number? (word : List Char) : Option Setting :=
  let (negative, signed, cs) := match word with
    | '-' :: cs => (true, true, cs)
    | '+' :: cs => (false, true, cs)
    | cs => (false, false, cs)
  if cs = "inf".toList then some (.infinite negative)
  else if cs = "nan".toList then some .nan
  else
    match cs with
    | '0' :: 'x' :: ds | '0' :: 'o' :: ds | '0' :: 'b' :: ds =>
      if signed then none
      else ((Number.joinDigits? false ds).bind fun ds =>
        Yaml.Scalar.natural? (cs.take 2 ++ ds)).map fun n => .int n
    | _ =>
      match Number.joinDigits? false cs with
      | none => none
      | some ds =>
        if !hasPlainFront ds then none
        else if ds.all Char.isDigit then
          (Yaml.Scalar.digitsIn? 10 ds).map fun n => .int (if negative then -(n : Int) else n)
        else if pointed ds && ds.head?.any Char.isDigit then
          (Yaml.Scalar.decimal? (if negative then '-' :: ds else ds)).map .float
        else none

/-- What a word without quotes stands for. -/
def word? (word : List Char) : Option Setting :=
  if word = "true".toList then some (.bool true)
  else if word = "false".toList then some (.bool false)
  else
    match number? word with
    | some v => some v
    | none => if Yaml.Scalar.isTime word then some (.time (String.ofList word)) else none

/-- Does something at the end of a way of names; tables on the way are made, and of a list of tables
the last counts. -/
def along : List String → (Table → Option Table) → Table → Option Table
  | [], act, ms => act ms
  | name :: rest, act, ms =>
    match ms.lookup name with
    | none => (along rest act []).map fun g => ms ++ [(name, .group g)]
    | some (.group g) => (along rest act g).map fun g => Setting.setMember name (.group g) ms
    | some (.list items) =>
      match items.getLast? with
      | some (.group g) =>
        (along rest act g).map fun g => Setting.setMember name (.list (items.dropLast ++ [.group g])) ms
      | _ => none
    | some _ => none

/-- Gives a key a value that it does not have. -/
def define (key : List String) (v : Setting) : Table → Option Table :=
  along key.dropLast fun ms =>
    let name := key.getLast?.getD ""
    if ms.any (·.1 = name) then none else some (ms ++ [(name, v)])

/-- Opens a new item in a list of tables. -/
def addItem (key : List String) : Table → Option Table :=
  along key.dropLast fun ms =>
    let name := key.getLast?.getD ""
    match ms.lookup name with
    | none => some (ms ++ [(name, .list [.group []])])
    | some (.list items) => some (Setting.setMember name (.list (items ++ [.group []])) ms)
    | some _ => none

/-- Whether a character ends a word. -/
def endsWord (c : Char) : Bool := isGap c || [',', ']', '\x7d', '#', '\n', '\r'].contains c

mutual

/-- A value, and what follows it. -/
def value? : (fuel : Nat) → List Char → Option (Setting × List Char)
  | 0, _ => none
  | fuel + 1, cs =>
    match cs with
    | '"' :: '"' :: '"' :: rest =>
      (quotedLines (rest.length + 1) [] ((lineEnd? rest).getD rest)).map fun (t, r) => (.text t, r)
    | '\'' :: '\'' :: '\'' :: rest =>
      (plainLines [] ((lineEnd? rest).getD rest)).map fun (t, r) => (.text t, r)
    | '"' :: rest => (quoted (rest.length + 1) [] rest).map fun (t, r) => (.text t, r)
    | '\'' :: rest => (plain? rest).map fun (t, r) => (.text t, r)
    | '[' :: rest => (items? fuel [] (skipLines rest.length rest)).map fun (vs, r) => (.list vs, r)
    | '\x7b' :: rest =>
      match skipGap rest with
      | '\x7d' :: rest => some (.group [], rest)
      | rest => (members? fuel [] rest).map fun (ms, r) => (.group ms, r)
    | _ =>
      let (word, rest) := cs.span fun c => !endsWord c
      (word? word).map fun v => (v, rest)

/-- The items of a list and what follows its bracket. -/
def items? : (fuel : Nat) → (done : List Setting) → List Char → Option (List Setting × List Char)
  | 0, _, _ => none
  | _ + 1, done, ']' :: cs => some (done.reverse, cs)
  | fuel + 1, done, cs => do
    let (v, rest) ← value? fuel cs
    match skipLines rest.length rest with
    | ',' :: rest => items? fuel (v :: done) (skipLines rest.length rest)
    | ']' :: rest => some ((v :: done).reverse, rest)
    | _ => none

/-- The members of a table in braces and what follows it. -/
def members? : (fuel : Nat) → (done : Table) → List Char → Option (Table × List Char)
  | 0, _, _ => none
  | fuel + 1, done, cs => do
    let (key, rest) ← key? cs.length cs
    match rest with
    | '=' :: rest =>
      let (v, rest) ← value? fuel (skipGap rest)
      let done ← define key v done
      match skipGap rest with
      | ',' :: rest => members? fuel done rest
      | '\x7d' :: rest => some (done, rest)
      | _ => none
    | _ => none

end

/-- Reads the statements of a text; `path` names the table that they fill and `opened` the tables
with a header so far. -/
def statements : (fuel : Nat) → (path : List String) → (opened : List (List String)) → Table →
    List Char → Option Table
  | 0, _, _, _, _ => none
  | fuel + 1, path, opened, ms, cs => do
    match skipLines cs.length cs with
    | [] => some ms
    | '[' :: '[' :: rest =>
      let (key, rest) ← key? rest.length rest
      match rest with
      | ']' :: ']' :: rest =>
        statements fuel key (opened.filter fun p => !key.isPrefixOf p) (← addItem key ms)
          (← statementEnd? rest)
      | _ => none
    | '[' :: rest =>
      let (key, rest) ← key? rest.length rest
      match rest with
      | ']' :: rest =>
        if opened.contains key then none
        else statements fuel key (key :: opened) (← along key some ms) (← statementEnd? rest)
      | _ => none
    | cs =>
      let (key, rest) ← key? cs.length cs
      match rest with
      | '=' :: rest =>
        let (v, rest) ← value? cs.length (skipGap rest)
        statements fuel path opened (← along path (define key v) ms) (← statementEnd? rest)
      | _ => none

/-- The tables that a text holds; none if it is malformed. -/
def read? (source : String) : Option Table :=
  let cs := source.toList
  statements (cs.length + 1) [] [] [] cs

/-- The wording for a malformed text. -/
def malformed : String := "toml: invalid document"

end Toml

/-- The group that a TOML text holds, or why it holds none. -/
def Setting.readToml (source : Bytes) : Except String Setting :=
  match Toml.read? source.toText with
  | some ms => .ok (.group ms)
  | none => .error Toml.malformed

end InstallerLint
