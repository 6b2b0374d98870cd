import InstallerLint.Yaml.Scalar
import InstallerLint.Yaml.Stream

/-!
# YAML trees

A text is a tree of scalars, lists and mappings.  An alias holds the tree that its anchor names;
an alias inside its own anchor holds none.

**Reading.**  `DataTree.parse` reads the first document of a text and looks no further than the three
tokens that start there.
-/

namespace InstallerLint
namespace Yaml

/-- A tree; every part knows its line, counted from one, and its short tag. -/
inductive DataTree where
  | scalar (line : Nat) (tag : String) (text : String)
  | list (line : Nat) (tag : String) (items : List DataTree)
  /-- A mapping, keys and values in order. -/
  | mapping (line : Nat) (tag : String) (entries : List (DataTree × DataTree))
  | reference (line : Nat) (name : String) (target : Option DataTree)
  deriving Repr, Inhabited

namespace DataTree

/-- The line of a tree. -/
def line : DataTree → Nat
  | scalar n .. | list n .. | mapping n .. | reference n .. => n

/-- The text of a scalar, the name of an alias, empty for others. -/
def text : DataTree → String
  | scalar _ _ t => t
  | reference _ name _ => name
  | _ => ""

/-- The tag of a tree; a reference has none. -/
def tag : DataTree → String
  | scalar _ t _ | list _ t _ | mapping _ t _ => t
  | reference .. => ""

/-- The form of a tree as a number. -/
def form : DataTree → Nat
  | scalar .. => 0
  | list .. => 1
  | mapping .. => 2
  | reference .. => 3

mutual

/-- How deep a tree is, through its references too. -/
def depth : DataTree → Nat
  | scalar .. => 1
  | list _ _ items => depthOfItems items + 1
  | mapping _ _ entries => depthOfEntries entries + 1
  | reference _ _ none => 1
  | reference _ _ (some t) => depth t + 1

/-- The depth of the deepest of some trees. -/
def depthOfItems : List DataTree → Nat
  | [] => 0
  | t :: rest => max (depth t) (depthOfItems rest)

/-- The depth of the deepest value of some entries. -/
def depthOfEntries : List (DataTree × DataTree) → Nat
  | [] => 0
  | (_, t) :: rest => max (depth t) (depthOfEntries rest)

end

end DataTree

/-- The long form of standard tags. -/
def standardTags : String := "tag:yaml.org,2002:"

/-- The short form of a tag. -/
def shortTag (tag : String) : String :=
  let long := standardTags.toList
  if long.isPrefixOf tag.toList then "!!" ++ String.ofList (tag.toList.drop long.length) else tag

/-- Anchors in scope; an anchor whose value is still being read has none. -/
abbrev Anchors := List (String × Option DataTree)

/-- What is left to read, and the anchors so far. -/
structure Rest where
  tokens : List Token
  fault : Option Fault
  anchors : Anchors
  /-- Handles of tags with what they stand for. -/
  handles : List (String × String)

namespace Rest

/-- How many tokens are read ahead. -/
def lookahead : Nat := 3

/-- The next token; a fault among the tokens read ahead comes first. -/
def peek (r : Rest) : Except Fault Token :=
  match r.fault, r.tokens with
  | some e, ts => if ts.length < lookahead then .error e else .ok (ts.headD ⟨.streamEnd, 0⟩)
  | none, t :: _ => .ok t
  | none, [] => .ok ⟨.streamEnd, 0⟩

/-- Passes a token. -/
def pop (r : Rest) : Rest := { r with tokens := r.tokens.tail }

/-- Opens an anchor. -/
def openAnchor (r : Rest) (name : Option String) : Rest :=
  match name with
  | some n => { r with anchors := (n, none) :: r.anchors.filter (·.1 ≠ n) }
  | none => r

/-- Gives an anchor its value unless it was taken meanwhile. -/
def closeAnchor (r : Rest) (name : Option String) (node : DataTree) : Rest :=
  match name with
  | some n => { r with anchors := r.anchors.map fun (m, v) =>
      if m = n && v.isNone then (m, some node) else (m, v) }
  | none => r

/-- The value of an alias. -/
def find (r : Rest) (name : String) : Except Fault (Option DataTree) :=
  match r.anchors.lookup name with
  | some v => .ok v
  | none => .error ⟨0, .unknownAnchor name⟩

end Rest

namespace DataTree

/-- A scalar that is not written. -/
def empty (line : Nat) : DataTree := .scalar (line + 1) "!!null" ""

/-- The short tag of a scalar: the one given, or what its text is written like. -/
def scalarTag (given : String) (style : ScalarStyle) (text : String) : String :=
  if given ≠ "" && given ≠ "!" then shortTag given
  else if style ≠ .plain then "!!str"
  else (Scalar.resolve text).tag

/-- The short tag of a list or mapping. -/
def groupTag (given standard : String) : String :=
  if given ≠ "" && given ≠ "!" then shortTag given else standard

/-- The tag that a handle and a suffix stand for. -/
def fullTag (r : Rest) (start here : Nat) : Option (String × String) → Except Fault String
  | none => .ok ""
  | some ("", suffix) => .ok suffix
  | some (handle, suffix) =>
    match r.handles.lookup handle with
    | some target => .ok (target ++ suffix)
    | none => .error (.ofTokens start here .tagHandle)

/-- Anchor and tag before a value. -/
structure Marks where
  anchor : Option String
  /-- Handle and suffix of the tag. -/
  tag : Option (String × String)
  /-- The line where the value starts. -/
  start : Nat
  tagLine : Nat

/-- Reads anchor and tag in either order. -/
def marks (r : Rest) : Except Fault (Marks × Rest) := do
  let t ← r.peek
  match t.kind with
  | .anchor name =>
    let r := r.pop
    let u ← r.peek
    match u.kind with
    | .tag h s => .ok (⟨some name, some (h, s), t.line, u.line⟩, r.pop)
    | _ => .ok (⟨some name, none, t.line, t.line⟩, r)
  | .tag h s =>
    let r := r.pop
    let u ← r.peek
    match u.kind with
    | .anchor name => .ok (⟨some name, some (h, s), t.line, t.line⟩, r.pop)
    | _ => .ok (⟨none, some (h, s), t.line, t.line⟩, r)
  | _ => .ok (⟨none, none, t.line, t.line⟩, r)

/-- Whether a token is one of some. -/
def among (t : Token) (kinds : List TokenKind) : Bool := kinds.contains t.kind

mutual

/-- Reads a value.  `block` allows block structure, `loose` a list at the column of its key. -/
def read (block loose : Bool) : (fuel : Nat) → Rest → Except Fault (DataTree × Rest)
  | 0, _ => .error ⟨0, .nodeContent⟩
  | fuel + 1, r => do
    let t ← r.peek
    match t.kind with
    | .reference name =>
      let target ← r.find name
      .ok (.reference (t.line + 1) name target, r.pop)
    | _ =>
      let (m, r) ← marks r
      let tag ← fullTag r m.start m.tagLine m.tag
      let t ← r.peek
      let line := m.start + 1
      let group (standard : String) (make : Nat → String → DataTree) (r : Rest) : DataTree × Rest :=
        let node := make line (groupTag tag standard)
        (node, r.closeAnchor m.anchor node)
      let opened := r.openAnchor m.anchor
      let absent : Except Fault (DataTree × Rest) :=
        if m.anchor.isSome || tag ≠ "" then
          let node := DataTree.scalar line (scalarTag tag .plain "") ""
          .ok (node, opened.closeAnchor m.anchor node)
        else .error (.ofTokens m.start t.line .nodeContent)
      match t.kind with
      | .entry =>
        if loose then do
          let (items, r) ← looseItems fuel opened
          .ok (group "!!seq" (fun l t => .list l t items) r)
        else absent
      | .scalar style text =>
        let node := DataTree.scalar line (scalarTag tag style text) text
        .ok (node, opened.pop.closeAnchor m.anchor node)
      | .listOpen => do
        let (items, r) ← flowItems t.line true fuel opened.pop
        .ok (group "!!seq" (fun l t => .list l t items) r)
      | .mappingOpen => do
        let (entries, r) ← flowEntries t.line true fuel opened.pop
        .ok (group "!!map" (fun l t => .mapping l t entries) r)
      | .blockList =>
        if block then do
          let (items, r) ← blockItems t.line fuel opened.pop
          .ok (group "!!seq" (fun l t => .list l t items) r)
        else absent
      | .blockMapping =>
        if block then do
          let (entries, r) ← blockEntries t.line fuel opened.pop
          .ok (group "!!map" (fun l t => .mapping l t entries) r)
        else absent
      | _ => absent
termination_by structural fuel => fuel

/-- Reads the entries of a block list. -/
def blockItems (start : Nat) : (fuel : Nat) → Rest → Except Fault (List DataTree × Rest)
  | 0, _ => .error ⟨0, .dash⟩
  | fuel + 1, r => do
    let t ← r.peek
    match t.kind with
    | .entry =>
      let r := r.pop
      let u ← r.peek
      let (item, r) ←
        if among u [.entry, .blockEnd] then pure (empty t.line, r) else read true false fuel r
      let (items, r) ← blockItems start fuel r
      .ok (item :: items, r)
    | .blockEnd => .ok ([], r.pop)
    | _ => .error (.ofTokens start t.line .dash)
termination_by structural fuel => fuel

/-- Reads the entries of a list at the column of its key. -/
def looseItems : (fuel : Nat) → Rest → Except Fault (List DataTree × Rest)
  | 0, _ => .error ⟨0, .dash⟩
  | fuel + 1, r => do
    let t ← r.peek
    match t.kind with
    | .entry =>
      let r := r.pop
      let u ← r.peek
      let (item, r) ←
        if among u [.entry, .key, .value, .blockEnd] then pure (empty t.line, r)
        else read true false fuel r
      let (items, r) ← looseItems fuel r
      .ok (item :: items, r)
    | _ => .ok ([], r)
termination_by structural fuel => fuel

/-- Reads the entries of a block mapping. -/
def blockEntries (start : Nat) : (fuel : Nat) → Rest → Except Fault (List (DataTree × DataTree) × Rest)
  | 0, _ => .error ⟨0, .key⟩
  | fuel + 1, r => do
    let t ← r.peek
    match t.kind with
    | .key =>
      let r := r.pop
      let u ← r.peek
      let (key, r) ←
        if among u [.key, .value, .blockEnd] then pure (empty t.line, r) else read true true fuel r
      let v ← r.peek
      let (value, r) ←
        if v.kind = .value then do
          let r := r.pop
          let w ← r.peek
          if among w [.key, .value, .blockEnd] then pure (empty v.line, r) else read true true fuel r
        else pure (empty v.line, r)
      let (entries, r) ← blockEntries start fuel r
      .ok ((key, value) :: entries, r)
    | .blockEnd => .ok ([], r.pop)
    | _ => .error (.ofTokens start t.line .key)
termination_by structural fuel => fuel

/-- Reads the entries of a list in brackets. -/
def flowItems (start : Nat) (first : Bool) : (fuel : Nat) → Rest → Except Fault (List DataTree × Rest)
  | 0, _ => .error ⟨0, .listComma⟩
  | fuel + 1, r => do
    let t ← r.peek
    if t.kind = .listClose then .ok ([], r.pop)
    else
      let r ←
        if first then pure r
        else if t.kind = .comma then pure r.pop
        else throw (.ofTokens start t.line .listComma)
      let t ← r.peek
      match t.kind with
      | .listClose => .ok ([], r.pop)
      | .key =>
        let (pair, r) ← flowPair fuel r.pop
        let node := DataTree.mapping (t.line + 1) "!!map" [pair]
        let (items, r) ← flowItems start false fuel r
        .ok (node :: items, r)
      | _ =>
        let (item, r) ← read false false fuel r
        let (items, r) ← flowItems start false fuel r
        .ok (item :: items, r)
termination_by structural fuel => fuel

/-- Reads a key and a value that stand in a list in brackets. -/
def flowPair : (fuel : Nat) → Rest → Except Fault ((DataTree × DataTree) × Rest)
  | 0, _ => .error ⟨0, .nodeContent⟩
  | fuel + 1, r => do
    let t ← r.peek
    let (key, r) ←
      if among t [.value, .comma, .listClose] then pure (empty t.line, r.pop)
      else read false false fuel r
    let v ← r.peek
    if v.kind = .value then
      let r := r.pop
      let w ← r.peek
      if among w [.comma, .listClose] then .ok ((key, empty w.line), r)
      else
        let (value, r) ← read false false fuel r
        .ok ((key, value), r)
    else .ok ((key, empty v.line), r)
termination_by structural fuel => fuel

/-- Reads the entries of a mapping in braces. -/
def flowEntries (start : Nat) (first : Bool) :
    (fuel : Nat) → Rest → Except Fault (List (DataTree × DataTree) × Rest)
  | 0, _ => .error ⟨0, .mappingComma⟩
  | fuel + 1, r => do
    let t ← r.peek
    if t.kind = .mappingClose then .ok ([], r.pop)
    else
      let r ←
        if first then pure r
        else if t.kind = .comma then pure r.pop
        else throw (.ofTokens start t.line .mappingComma)
      let t ← r.peek
      match t.kind with
      | .mappingClose => .ok ([], r.pop)
      | .key =>
        let r := r.pop
        let u ← r.peek
        let (key, r) ←
          if among u [.value, .comma, .mappingClose] then pure (empty u.line, r)
          else read false false fuel r
        let v ← r.peek
        let (value, r) ←
          if v.kind = .value then do
            let r := r.pop
            let w ← r.peek
            if among w [.comma, .mappingClose] then pure (empty w.line, r)
            else read false false fuel r
          else pure (empty v.line, r)
        let (entries, r) ← flowEntries start false fuel r
        .ok ((key, value) :: entries, r)
      | _ =>
        let (key, r) ← read false false fuel r
        let v ← r.peek
        let (entries, r) ← flowEntries start false fuel r
        .ok ((key, empty v.line) :: entries, r)
termination_by structural fuel => fuel

end

/-- Reads the directives before a document. -/
def directives : (fuel : Nat) → (version : Bool) → Rest → Except Fault Rest
  | 0, _, r => .ok r
  | fuel + 1, version, r => do
    let t ← r.peek
    match t.kind with
    | .version major minor =>
      if version then throw (.ofTokens 0 t.line .versionTwice)
      if major ≠ 1 || minor ≠ 1 then throw (.ofTokens 0 t.line .versionOther)
      directives fuel true r.pop
    | .tagHandle handle target =>
      if (r.handles.lookup handle).isSome then throw (.ofTokens 0 t.line .tagTwice)
      directives fuel version { r.pop with handles := (handle, target) :: r.handles }
    | _ => .ok r

/-- Handles that need no directive, as far as they were not redefined. -/
def withStandardHandles (r : Rest) : Rest :=
  { r with handles := r.handles ++ [("!", "!"), ("!!", standardTags)] }

/-- The first document of a text: its tree, or none if the text has no document. -/
def ofTokens (r : Rest) : Except Fault (Option DataTree) := do
  let fuel := 3 * r.tokens.length + 8
  let t ← r.peek
  match t.kind with
  | .streamEnd => .ok none
  | .version .. | .tagHandle .. | .documentStart =>
    let r ← directives fuel false r
    let t ← r.peek
    if t.kind ≠ .documentStart then throw (.ofTokens 0 t.line .documentStart)
    let r := withStandardHandles r.pop
    let t ← r.peek
    match t.kind with
    | .version .. | .tagHandle .. | .documentStart | .documentEnd | .streamEnd =>
      .ok (some (empty t.line))
    | _ =>
      let (node, r) ← read true false fuel r
      let _ ← r.peek
      .ok (some node)
  | _ =>
    let (node, r) ← read true false fuel (withStandardHandles r)
    let _ ← r.peek
    .ok (some node)

/-- Reads the first document of a text. -/
def parse (source : Bytes) : Except Fault (Option DataTree) :=
  match decodeChars source with
  | .error p => .error ⟨0, p⟩
  | .ok cs =>
    let (tokens, fault) := tokens cs
    ofTokens ⟨tokens, fault, [], []⟩

end DataTree
end Yaml
end InstallerLint
