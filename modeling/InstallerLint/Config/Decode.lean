import InstallerLint.Config.Basic
import InstallerLint.Config.Setting
import InstallerLint.Text.Number

/-!
# Settings from values

The values of a settings file are fitted to the types of the settings.  Types are taken lightly: a
text can give a number, a truth value or a list with commas, a number can give a text, and a single
value can give a list.  What does not fit is a problem; all problems are reported, in order.
-/

namespace InstallerLint
namespace Setting

/-- The type of a value, as messages name it. -/
def typeName : Setting → String
  | null => "nil"
  | bool _ => "bool"
  | int n => if n < (Numbers.halfWords : Int) then "int" else "uint64"
  | float _ | infinite _ | nan => "float64"
  | time _ => "time.Time"
  | text _ => "string"
  | list _ => "[]interface \x7b\x7d"
  | group _ => "map[string]interface \x7b\x7d"

/-- The kind of a value, as messages name it. -/
def kindName : Setting → String
  | list _ => "slice"
  | group _ => "map"
  | time _ => "struct"
  | v => v.typeName

mutual

/-- A value, as messages show it. -/
def shown : Setting → String
  | null => "<nil>"
  | bool b => if b then "true" else "false"
  | int n => toString n
  | float d => d.text
  | infinite negative => if negative then "-Inf" else "+Inf"
  | nan => "NaN"
  | time t => t
  | text s => s
  | list items => "[" ++ " ".intercalate (shownItems items) ++ "]"
  | group ms => "map[" ++ " ".intercalate (Order.sort (shownMembers ms)) ++ "]"

/-- Items, as messages show them. -/
def shownItems : List Setting → List String
  | [] => []
  | v :: rest => shown v :: shownItems rest

/-- Members, as messages show them. -/
def shownMembers : List (String × Setting) → List String
  | [] => []
  | (name, v) :: rest => (name ++ ":" ++ shown v) :: shownMembers rest

end

/-- A value of a type that gives no other. -/
def misfit (name target : String) (v : Setting) : String :=
  "'" ++ name ++ "' expected type '" ++ target ++ "', got unconvertible type '" ++ v.typeName
    ++ "', value: '" ++ v.shown ++ "'"

/-- A value where a group is wanted. -/
def noGroup (name : String) (v : Setting) : String :=
  "'" ++ name ++ "' expected a map, got '" ++ v.kindName ++ "'"

/-- A text; nothing keeps the old one. -/
def toText (name : String) (old : String) : Setting → Except String String
  | null => .ok old
  | text s => .ok s
  | bool b => .ok (if b then "1" else "0")
  | int n => .ok (toString n)
  | float d => .ok d.text
  | infinite negative => .ok (if negative then "-Inf" else "+Inf")
  | nan => .ok "NaN"
  | v => .error (misfit name "string" v)

/-- The least integer of 64 bits, which numbers out of range become. -/
def leastInt : Int := -(Numbers.halfWords : Int)

/-- An integer; nothing keeps the old one. -/
def toInt (name : String) (old : Int) : Setting → Except String Int
  | null => .ok old
  | int n => .ok (if n < (Numbers.halfWords : Int) then n else n - (Numbers.words : Int))
  | float d => .ok (if Yaml.Decode.isInt64 d.truncate then d.truncate else leastInt)
  | infinite _ | nan => .ok leastInt
  | bool b => .ok (if b then 1 else 0)
  | text s =>
    match Number.int? (if s = "" then "0" else s) with
    | .ok n => .ok n
    | .error f => .error ("cannot parse '" ++ name ++ "' as int: " ++ f.message "ParseInt" s)
  | v => .error (misfit name "int" v)

/-- A truth value; nothing keeps the old one. -/
def toBool (name : String) (old : Bool) : Setting → Except String Bool
  | null => .ok old
  | bool b => .ok b
  | int n => .ok (n ≠ 0)
  | float d => .ok (d.mantissa ≠ 0)
  | infinite _ | nan => .ok true
  | text s =>
    if s = "" then .ok false
    else
      match Number.bool? s with
      | .ok b => .ok b
      | .error f => .error ("cannot parse '" ++ name ++ "' as bool: " ++ f.message "ParseBool" s)
  | v => .error (misfit name "bool" v)

/-- A value with the problems met, and another in its place where there were some. -/
def collected {α : Type} (fallback : α) : Except String α → α × List String
  | .ok a => (a, [])
  | .error e => (fallback, [e])

/-- The texts of items, counted from a number. -/
def textItems (name : String) : (number : Nat) → List Setting → List String × List String
  | _, [] => ([], [])
  | number, v :: rest =>
    let (s, es) := collected "" (v.toText (name ++ "[" ++ toString number ++ "]") "")
    let (more, fs) := textItems name (number + 1) rest
    (s :: more, es ++ fs)

/-- A list of texts; a text is split at commas, and any other value is an item of its own. -/
def toTexts (name : String) (old : List String) : Setting → List String × List String
  | null => (old, [])
  | text s => (if s = "" then [] else Find.pieces ',' s, [])
  | list items => textItems name 0 items
  | group [] => ([], [])
  | v => textItems name 0 [v]

/-- Sets a text under a name. -/
def setText (name value : String) (ms : List (String × String)) : List (String × String) :=
  (name, value) :: ms.filter (·.1 ≠ name)

/-- Adds the texts of members to others. -/
def textMembers (name : String) : List (String × String) → List (String × Setting) →
    List (String × String) × List String
  | old, [] => (old, [])
  | old, (key, v) :: rest =>
    match v.toText (name ++ "[" ++ key ++ "]") "" with
    | .ok s => textMembers name (setText key s old) rest
    | .error e =>
      let (all, es) := textMembers name old rest
      (all, e :: es)

mutual

/-- Texts under names: of a group, or of the groups of a list. -/
def toTextMap (name : String) (old : List (String × String)) : Setting →
    List (String × String) × List String
  | null => (old, [])
  | group ms => textMembers name old ms
  | list items => toTextMaps name 0 old items
  | v => (old, [noGroup name v])

/-- Texts under names of the items of a list; the first that does not fit ends it. -/
def toTextMaps (name : String) (number : Nat) (old : List (String × String)) : List Setting →
    List (String × String) × List String
  | [] => (old, [])
  | v :: rest =>
    let (all, es) := toTextMap (name ++ "[" ++ toString number ++ "]") old v
    if es.isEmpty then toTextMaps name (number + 1) all rest else (all, es)

end

/-- The member of a group with a name in any case; nothing when there is none. -/
def field (ms : List (String × Setting)) (name : String) : Setting :=
  match ms.lookup name with
  | some v => v
  | none => ((ms.find? fun m => Case.equalFold m.1 name).map Prod.snd).getD null

/-- The members of a group with a name; nothing gives none. -/
def groupAt (name : String) : Setting → List (String × Setting) × List String
  | null => ([], [])
  | group ms => (ms, [])
  | v => ([], [noGroup name v])

end Setting

namespace Config

open Setting in
/-- The settings of rules in a group. -/
def decodeRules (old : RuleSettings) (v : Setting) : RuleSettings × List String :=
  let (ms, es₀) := groupAt "rules" v
  let (enabled, es₁) := toTexts "rules.enabled" old.enabled (field ms "enabled")
  let (disabled, es₂) := toTexts "rules.disabled" old.disabled (field ms "disabled")
  let (severity, es₃) := toTextMap "rules.severity" old.severity (field ms "severity")
  let (categories, es₄) := toTexts "rules.categories" old.categories (field ms "categories")
  let (files, es₅) := toTexts "rules.files" old.files (field ms "files")
  (⟨enabled, disabled, Order.sortBy Prod.fst severity, categories, files⟩,
    es₀ ++ es₁ ++ es₂ ++ es₃ ++ es₄ ++ es₅)

open Setting in
/-- Settings changed by the values of a group, with the problems met. -/
def decode (old : Config) (v : Setting) : Config × List String :=
  let ms := v.members
  let (rules, es₀) := decodeRules old.rules (field ms "rules")
  let (minSeverity, es₁) := collected "" (toText "min_severity" old.minSeverity (field ms "min_severity"))
  let (exclude, es₂) := toTexts "exclude" old.exclude (field ms "exclude")
  let (maxDiagnostics, es₃) :=
    collected 0 (toInt "max_diagnostics" old.maxDiagnostics (field ms "max_diagnostics"))
  let (cache, es₄) := groupAt "cache" (field ms "cache")
  let (cacheEnabled, es₅) := collected false (toBool "cache.enabled" old.cacheEnabled (field cache "enabled"))
  let (cacheDir, es₆) := collected "" (toText "cache.dir" old.cacheDir (field cache "dir"))
  let (workers, es₇) := collected 0 (toInt "workers" old.workers (field ms "workers"))
  let (baseline, es₈) := collected "" (toText "baseline" old.baseline (field ms "baseline"))
  ({ old with rules, minSeverity, exclude, maxDiagnostics, cacheEnabled, cacheDir, workers, baseline },
    es₀ ++ es₁ ++ es₂ ++ es₃ ++ es₄ ++ es₅ ++ es₆ ++ es₇ ++ es₈)

end Config

end InstallerLint
