import InstallerLint.Json.Reader
import InstallerLint.Text.Order
import InstallerLint.Yaml.Decode

/-!
# Values of settings

A settings file holds values of any type, in groups under names.  Names are small: case does not
count, so every name is brought to small letters when a file is read.

**Keys.**  A value inside groups is known by its key, the names on the way to it with points
between them.  A name may hold points itself, so a key is looked up by every way to split it.
-/

namespace InstallerLint

/-- A value of a settings file. -/
inductive Setting where
  | null
  | bool (b : Bool)
  | int (n : Int)
  | float (d : Yaml.Decimal)
  | infinite (negative : Bool)
  | nan
  /-- A point in time, as written. -/
  | time (text : String)
  | text (s : String)
  | list (items : List Setting)
  /-- A group of values with names. -/
  | group (members : List (String × Setting))
  deriving Repr, Inhabited

namespace Setting

/-- Sets a member: in its place if the name is there, else at the end. -/
def setMember (name : String) (v : Setting) : List (String × Setting) → List (String × Setting)
  | [] => [(name, v)]
  | (n, w) :: rest => if n = name then (n, v) :: rest else (n, w) :: setMember name v rest

mutual

/-- A value with all names in small letters; of two members with one name the later counts. -/
def small : Setting → Setting
  | list items => list (smallItems items)
  | group ms => group (smallMembers [] ms)
  | v => v

/-- Items with all names in small letters. -/
def smallItems : List Setting → List Setting
  | [] => []
  | v :: rest => small v :: smallItems rest

/-- Members with all names in small letters, after others. -/
def smallMembers (done : List (String × Setting)) : List (String × Setting) → List (String × Setting)
  | [] => done
  | (name, v) :: rest => smallMembers (setMember (Case.lower name) (small v) done) rest

end

/-- Whether it is nothing. -/
def isNull : Setting → Bool
  | null => true
  | _ => false

/-- The members of a group. -/
def members : Setting → List (String × Setting)
  | group ms => ms
  | _ => []

mutual

/-- The value of a JSON value; none when a number is out of range. -/
def ofJson? : Json → Except String Setting
  | .null => .ok null
  | .bool b => .ok (bool b)
  | .num t =>
    match Yaml.Scalar.decimal? t.toList with
    | some d => .ok (float d)
    | none => .error ("json: cannot unmarshal number " ++ t ++ " into Go value of type float64")
  | .str s => .ok (text s)
  | .arr items => return list (← ofItems? items)
  | .obj ms => return group (← ofMembers? ms)

/-- The values of JSON items. -/
def ofItems? : List Json → Except String (List Setting)
  | [] => .ok []
  | j :: rest => return (← ofJson? j) :: (← ofItems? rest)

/-- The values of JSON members; of two with one name the last counts. -/
def ofMembers? : List (String × Json) → Except String (List (String × Setting))
  | [] => .ok []
  | (name, j) :: rest => do
    let v ← ofJson? j
    let more ← ofMembers? rest
    return if more.any (·.1 = name) then more else (name, v) :: more

end

/-- The name of a kind of JSON value. -/
def jsonKind : Json → String
  | .null => "null"
  | .bool _ => "bool"
  | .num _ => "number"
  | .str _ => "string"
  | .arr _ => "array"
  | .obj _ => "object"

/-- The group that a JSON text holds, or why it holds none. -/
def readJson (source : Bytes) : Except String Setting :=
  match Json.parseBytes source with
  | .error e => .error e.message
  | .ok .null => .ok (group [])
  | .ok (.obj ms) => return group (← ofMembers? ms)
  | .ok j => .error ("json: cannot unmarshal " ++ jsonKind j
      ++ " into Go value of type map[string]interface \x7b\x7d")

/-- The value of a scalar. -/
def ofScalar : Yaml.Scalar → Setting
  | .null => null
  | .bool b => bool b
  | .int n => int n
  | .float d => float d
  | .infinite n => infinite n
  | .nan => nan
  | .time t => time t
  | .merge => text "<<"
  | .text s => text s

/-- A scalar as a name. -/
def nameOf (written : String) : Yaml.Scalar → String
  | .null => ""
  | .bool b => if b then "true" else "false"
  | .int n => toString n
  | .float d => d.text
  | .text s => s
  | _ => written

open Yaml in
/-- A key of a mapping as a text. -/
def textKey : DataTree → Decode DataTree
  | .scalar line tag t =>
    if tag = "!!merge" then pure (.scalar line tag t)
    else return .scalar line "!!str" (nameOf t (← Decode.meaning tag t))
  | n => pure n

open Yaml in
/-- The value of a tree, `depth` levels deep. -/
def ofNode : (depth : Nat) → DataTree → Decode (Option Setting)
  | 0, _ => pure none
  | depth + 1, n => do
    match ← Decode.deref n with
    | .scalar _ tag t => return some (ofScalar (← Decode.meaning tag t))
    | .list _ _ items => return some (list (← Decode.collect (ofNode depth) items))
    | .mapping line tag entries =>
      let entries ← entries.mapM fun (k, v) => do return (← textKey k, v)
      let ms ← Decode.record "map[string]interface \x7b\x7d" false []
        (fun (ms : List (String × Setting)) name v => some do
          return setMember name ((← ofNode depth v).getD null) ms) (.mapping line tag entries)
      return ms.map group
    | .reference _ name _ => Decode.fault (.selfAnchor name)

/-- How deep trees are read. -/
def depthLimit : Nat := 10000

open Yaml in
/-- The group that a YAML text holds, or why it holds none. -/
def readYaml (source : Bytes) : Except String Setting :=
  let target := "map[string]interface \x7b\x7d"
  (Yaml.decode source (group []) fun n => do
    match ← Decode.deref n with
    | .mapping .. =>
      let ms ← Decode.record target false [] (fun (ms : List (String × Setting)) name v => some do
        return setMember name ((← ofNode depthLimit v).getD null) ms) n
      return ms.map group
    | n => Decode.scalar target (fun _ _ => none) n).mapError (·.message)

mutual

/-- The keys of the values in groups, with what stands before them. -/
def keysUnder (start : String) : Setting → List String
  | group ms => keysOf start ms
  | _ => [start]

/-- The keys of members. -/
def keysOf (start : String) : List (String × Setting) → List String
  | [] => []
  | (name, v) :: rest =>
    keysUnder (if start = "" then name else start ++ "." ++ name) v ++ keysOf start rest

end

/-- The keys of the values of a group; a group without values has none. -/
def keys (v : Setting) : List String := keysOf "" v.members

/-- The value under names. -/
def along : List String → Setting → Option Setting
  | [], v => some v
  | name :: rest, group ms =>
    match ms.lookup name with
    | some v => along rest v
    | none => none
  | _ :: _, _ => none

/-- The ways to split names into a first name and the rest, the longest first name first. -/
def splits (path : List String) : List (String × List String) :=
  ((List.range path.length).map fun i => (".".intercalate (path.take (i + 1)), path.drop (i + 1))).reverse

/-- The item of a list with a number as its name. -/
def item? (items : List Setting) (name : String) : Option Setting :=
  (Json.integer? name).bind fun n => if n < 0 then none else items[n.toNat]?

/-- The value of a key, which is something; `depth` bounds the number of names. -/
def search : (depth : Nat) → (path : List String) → Setting → Option Setting
  | _, [], v => if v.isNull then none else some v
  | 0, _, _ => none
  | depth + 1, path, v =>
    (splits path).findSome? fun (name, rest) =>
      match v with
      | group ms => (ms.lookup name).bind (search depth rest)
      | list items => (item? items name).bind (search depth rest)
      | _ => none

/-- Whether a value that is no group stands on the way to a key. -/
def blocks (v : Setting) (path : List String) : Bool :=
  let on := ((List.range path.length).drop 1).map fun i => (v.along (path.take i)).getD null
  (on.takeWhile fun w => !w.isNull).any fun w => match w with
    | group _ => false
    | _ => true

/-- Puts a value under names, with groups on the way. -/
def place : (path : List String) → (new : Setting) → List (String × Setting) → List (String × Setting)
  | [], _, ms => ms
  | [name], new, ms => setMember name new ms
  | name :: rest, new, ms =>
    setMember name (group (place rest new (((ms.lookup name).map members).getD []))) ms

end Setting
end InstallerLint
