import InstallerLint.Text.Quoted
import InstallerLint.Yaml.DataTree

/-!
# Values from YAML trees

A decoder takes a tree and gives a value, or none when the tree is null or does not fit.  What
does not fit is noted as an issue and decoding goes on; a fault, or a value that its own reader
rejects, ends it at once.
-/

namespace InstallerLint
namespace Yaml

/-- A part of a tree that does not fit. -/
inductive Issue where
  | mismatch (line : Nat) (tag text target : String)
  /-- A field that a record does not have. -/
  | unknownField (line : Nat) (name target : String)
  | repeatedField (line : Nat) (name target : String)
  | repeatedKey (line : Nat) (name : String) (first : Nat)
  deriving DecidableEq, Repr

/-- How much of a long text an issue shows. -/
def shownText (s : String) : String :=
  let bytes := Bytes.ofString s
  if 10 < bytes.length then (Bytes.toText (bytes.take 7)) ++ "..." else s

/-- The wording of an issue. -/
def Issue.message : Issue → String
  | mismatch line tag text target =>
    let shown := if tag = "!!seq" || tag = "!!map" then text else " \x60" ++ shownText text ++ "\x60"
    "line " ++ toString line ++ ": cannot unmarshal " ++ tag ++ shown ++ " into " ++ target
  | unknownField line name target =>
    "line " ++ toString line ++ ": field " ++ name ++ " not found in type " ++ target
  | repeatedField line name target =>
    "line " ++ toString line ++ ": field " ++ name ++ " already set in type " ++ target
  | repeatedKey line name first =>
    "line " ++ toString line ++ ": mapping key " ++ Quoted.quote name ++ " already defined at line "
      ++ toString first

/-- Why a text gives no value. -/
inductive Error where
  | fault (f : Fault)
  | issues (l : List Issue)
  /-- The reader of a value rejects it. -/
  | rejected (message : String)
  deriving DecidableEq, Repr

/-- The wording of an error. -/
def Error.message : Error → String
  | fault f => f.message
  | issues l => "yaml: unmarshal errors:\n" ++ "\n".intercalate (l.map fun i => "  " ++ i.message)
  | rejected m => m

/-- A step of decoding; the state holds the issues so far. -/
abbrev Decode := StateT (List Issue) (Except Error)

namespace Decode

/-- Notes an issue. -/
def note (i : Issue) : Decode Unit := modify (· ++ [i])

/-- Ends decoding at a fault. -/
def fault {α : Type} (p : Problem) : Decode α := throw (.fault ⟨0, p⟩)

/-- Ends decoding with a message about a line. -/
def reject {α : Type} (line : Nat) (message : String) : Decode α :=
  throw (.rejected ("line " ++ toString line ++ ": " ++ message))

/-- Decodes on its own: new issues are noted and leave no value. -/
def nested {α : Type} (d : Decode α) : Decode (Option α) := do
  let before ← get
  match d.run [] with
  | .error e => throw e
  | .ok (a, []) => pure (some a)
  | .ok (_, issues) =>
    set (before ++ issues)
    pure none

/-- The value of a decoder without issues. -/
def finish {α : Type} (d : Decode α) : Except Error α :=
  match d.run [] with
  | .error e => .error e
  | .ok (a, []) => .ok a
  | .ok (_, issues) => .error (.issues issues)

/-- The value of a digit in base 64. -/
def sextet? (c : Char) : Option Nat :=
  if 'A' ≤ c && c ≤ 'Z' then some (c.toNat - 65)
  else if 'a' ≤ c && c ≤ 'z' then some (c.toNat - 71)
  else if c.isDigit then some (c.toNat + 4)
  else if c = '+' then some 62 else if c = '/' then some 63 else none

/-- The bytes of base 64 text. -/
def base64? : List Char → Option Bytes
  | [] => some []
  | [a, b, '=', '='] => do
    let n := (← sextet? a) * 64 + (← sextet? b)
    some [UInt8.ofNat (n / 16)]
  | [a, b, c, '='] => do
    let n := ((← sextet? a) * 64 + (← sextet? b)) * 64 + (← sextet? c)
    some [UInt8.ofNat (n / 1024), UInt8.ofNat (n / 4)]
  | a :: b :: c :: d :: rest => do
    let n := (((← sextet? a) * 64 + (← sextet? b)) * 64 + (← sextet? c)) * 64 + (← sextet? d)
    let more ← base64? rest
    some (UInt8.ofNat (n / 65536) :: UInt8.ofNat (n / 256) :: UInt8.ofNat n :: more)
  | _ => none

/-- The tags under which a scalar is read by its form. -/
def formTags : List String := ["!!null", "!!bool", "!!int", "!!float", "!!timestamp", "!!merge"]

/-- What a scalar stands for under its tag; under a tag of another kind it is a text. -/
def meaning (tag text : String) : Decode Scalar :=
  if tag = "!!str" then pure (.text text)
  else if tag = "!!binary" then
    match base64? (text.toList.filter fun c => c ≠ '\n' && c ≠ '\r') with
    | some bytes => pure (.text bytes.toText)
    | none => fault .binary
  else if !formTags.contains tag then pure (.text text)
  else
    let value := Scalar.resolveAs (tag = "!!timestamp") text
    if value.tag = tag then pure value
    else
      match tag, value with
      | "!!float", .int n => pure (.float ⟨n < 0, n.natAbs, 0⟩)
      | _, _ => fault (.tagMismatch value.tag text tag)

/-- Notes the keys that a mapping repeats; whether there are none. -/
def checkKeys : List (DataTree × DataTree) → Decode Bool
  | [] => pure true
  | (key, _) :: rest => do
    let again := rest.filter fun (k, _) => k.form = key.form && k.text = key.text
    again.forM fun (k, _) => note (.repeatedKey k.line k.text key.line)
    let ok ← checkKeys rest
    pure (ok && again.isEmpty)

/-- What an alias refers to. -/
def target (name : String) : Option DataTree → Decode DataTree
  | some t => pure t
  | none => fault (.selfAnchor name)

/-- A tree with its alias replaced. -/
def deref : DataTree → Decode DataTree
  | .reference _ name t => target name t
  | n => pure n

/-- Decodes a scalar that is not null; other trees do not fit. -/
def scalar {α : Type} (target : String) (take : String → Scalar → Option α) (n : DataTree) :
    Decode (Option α) := do
  match ← deref n with
  | .scalar line tag text =>
    if tag = "!!null" then
      let _ ← meaning tag text
      pure none
    else
      match ← meaning tag text with
      | .null => pure none
      | value =>
        match take text value with
        | some a => pure (some a)
        | none =>
          note (.mismatch line tag text target)
          pure none
  | .list line tag _ =>
    note (.mismatch line tag "" target)
    pure none
  | .mapping line tag entries =>
    if ← checkKeys entries then note (.mismatch line tag "" target)
    pure none
  | .reference _ name _ => fault (.selfAnchor name)

/-- A text: any scalar as it is written. -/
def text (n : DataTree) : Decode (Option String) :=
  scalar "string" (fun written value => match value with
    | .text s => some s
    | _ => some written) n

/-- The bounds of integers. -/
def isInt64 (n : Int) : Bool := -(Numbers.halfWords : Int) ≤ n && n < (Numbers.halfWords : Int)

/-- A number of an integer type; the fraction of a decimal number is dropped. -/
def number (target : String) (n : DataTree) : Decode (Option Int) :=
  scalar target (fun _ value => match value with
    | .int i => if isInt64 i then some i else none
    | .float d => if isInt64 d.truncate then some d.truncate else none
    | .infinite true => some (-(Numbers.halfWords : Int))
    | _ => none) n

/-- An integer. -/
def int (n : DataTree) : Decode (Option Int) := number "int" n

/-- A truth value, also by its older names. -/
def bool (n : DataTree) : Decode (Option Bool) :=
  scalar "bool" (fun _ value => match value with
    | .bool b => some b
    | .text s =>
      if ["y", "Y", "yes", "on"].contains s then some true
      else if ["n", "N", "no", "off"].contains s then some false
      else none
    | _ => none) n

/-- The items that a decoder gives a value for. -/
def collect {α : Type} (item : DataTree → Decode (Option α)) : List DataTree → Decode (List α)
  | [] => pure []
  | n :: rest => do
    let a ← item n
    let more ← collect item rest
    pure (a.toList ++ more)

/-- A list; items without a value are left out. -/
def list {α : Type} (target : String) (item : DataTree → Decode (Option α)) (n : DataTree) :
    Decode (Option (List α)) := do
  match ← deref n with
  | .list _ _ items => some <$> collect item items
  | n => scalar target (fun _ _ => none) n

/-- Whether a key merges another mapping. -/
def isMerge : DataTree → Bool
  | .scalar _ tag "<<" => tag = "!!merge"
  | _ => false

/-- The mappings that a merge key names. -/
def mergeSources : DataTree → Decode (List (List (DataTree × DataTree)))
  | .mapping _ _ es => pure [es]
  | .reference _ _ (some (.mapping _ _ es)) => pure [es]
  | .reference _ name none => fault (.selfAnchor name)
  | .list _ _ items => items.mapM fun
    | .mapping _ _ es => pure es
    | .reference _ _ (some (.mapping _ _ es)) => pure es
    | .reference _ name none => fault (.selfAnchor name)
    | _ => fault .mergeTarget
  | _ => fault .mergeTarget

/-- What a record reader does with a field: the new record, or none if there is no such field. -/
abbrev Field (ρ : Type) := ρ → String → DataTree → Option (Decode ρ)

/-- Reads the entries of a mapping into a record; `taken` are the names that no longer count in
merged mappings, `done` the names that were set here. -/
def fill {ρ : Type} (target : String) (strict merged : Bool) (field : Field ρ) :
    List (DataTree × DataTree) → (taken done : List String) → ρ → Decode (List String × ρ)
  | [], taken, _, r => pure (taken, r)
  | (key, value) :: rest, taken, done, r => do
    if isMerge key then fill target strict merged field rest taken done r
    else
      match ← text key with
      | none => fill target strict merged field rest taken done r
      | some name =>
        if merged && taken.contains name then fill target strict merged field rest taken done r
        else
          let taken := if merged then name :: taken else taken
          match field r name value with
          | none =>
            if strict then note (.unknownField key.line name target)
            fill target strict merged field rest taken done r
          | some step =>
            if done.contains name then
              note (.repeatedField key.line name target)
              fill target strict merged field rest taken done r
            else
              let r ← step
              fill target strict merged field rest taken (name :: done) r

/-- The value of the last merge key. -/
def mergeValue? (entries : List (DataTree × DataTree)) : Option DataTree :=
  ((entries.filter fun e => isMerge e.1).getLast?).map Prod.snd

/-- Reads mappings that are merged, and what they merge themselves, `depth` levels deep. -/
def fillMerged {ρ : Type} (target : String) (strict : Bool) (field : Field ρ) : (depth : Nat) →
    List (List (DataTree × DataTree)) → (taken : List String) → ρ → Decode (List String × ρ)
  | 0, _, taken, r => pure (taken, r)
  | _ + 1, [], taken, r => pure (taken, r)
  | depth + 1, entries :: rest, taken, r => do
    if ← checkKeys entries then
      let (taken, r) ← fill target strict true field entries taken [] r
      let inner ← match mergeValue? entries with
        | some v => mergeSources v
        | none => pure []
      fillMerged target strict field depth (inner ++ rest) taken r
    else fillMerged target strict field depth rest taken r

/-- How many merged mappings are read at most. -/
def mergeLimit : Nat := 10000

/-- A record: fields in order, then merged mappings for what is not set. -/
def record {ρ : Type} (target : String) (strict : Bool) (empty : ρ) (field : Field ρ) (n : DataTree) :
    Decode (Option ρ) := do
  match ← deref n with
  | .mapping _ _ entries =>
    if ← checkKeys entries then
      let (_, r) ← fill target strict false field entries [] [] empty
      match mergeValue? entries with
      | none => pure (some r)
      | some v =>
        let names ← collect (fun (k : DataTree) => text k) (entries.map Prod.fst)
        let (_, r) ← fillMerged target strict field mergeLimit (← mergeSources v) names r
        pure (some r)
    else pure none
  | n => scalar target (fun _ _ => none) n

end Decode

/-- Decodes the first document of a text; `empty` is the value of a text without one, and of a
document that gives none. -/
def decode {α : Type} (source : Bytes) (empty : α) (d : DataTree → Decode (Option α)) :
    Except Error α :=
  match DataTree.parse source with
  | .error f => .error (.fault f)
  | .ok none => .ok empty
  | .ok (some n) => ((d n).finish).map (·.getD empty)

end Yaml
end InstallerLint
