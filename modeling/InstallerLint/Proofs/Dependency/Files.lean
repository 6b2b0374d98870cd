import InstallerLint.Cli.Inspect
import InstallerLint.Proofs.Dependency.Extract
import InstallerLint.Proofs.Dependency.Merge

/-!
# The dependencies of several files

The command makes a graph of each file that is a document and merges them one after the other
(`ofFiles`, `Cli.Call.run_dependencies`).

**What comes together.**  The merged graph has the names and the edges of all files
(`has_ofFiles`, `edge_ofFiles`).  Names do not depend on how elements are spread over files.  Edges
do: a file asks for edges of its own (`linksAt`), and one that leads from a package to a name of
another file is dropped before the files are merged.

**Self-contained files.**  If every file names what its packages come after then nothing is dropped
(`SelfContained.edge_iff`), so what is asked for decides, and this does not depend on the files.

**The main result** is `files_spec`.
-/

namespace InstallerLint
namespace DependencyGraph

/-- The dependencies of several files, merged one after the other. -/
def ofFiles (docs : List Document) : DependencyGraph :=
  docs.foldl (fun g d => g.merge (extract d)) {}

end DependencyGraph

namespace Cli

theorem Act.run_bind {α β : Type} {x : Act α} {f : α → Act β} {s s' : Session} {a : α}
    (h : x.run.run s = (.ok a, s')) : (x >>= f).run.run s = (f a).run.run s' := by
  rw [ExceptT.run_bind, StateT.run_bind, h]
  rfl

namespace Call

/-- The document of a file, none if settings leave the file out or it cannot be read as one. -/
def document? (disk : Disk) (cfg : Config) (file : String) : Option Document :=
  if cfg.excludes file then none
  else (disk.read file).toOption.bind fun content => (Document.parse content file).toOption

/-- The documents of files. -/
def documents (disk : Disk) (cfg : Config) (files : List String) : List Document :=
  files.filterMap (document? disk cfg)

/-- A file that is looked at brings the dependencies of its document; the disk stays as it is. -/
theorem run_dependencies_cons (c : Call) (cfg : Config) (g : DependencyGraph) {file : String}
    (files : List String) {s : Session}
    (hread : cfg.excludes file = false → ∃ content, s.disk.read file = .ok content) :
    ∃ err, (c.dependencies cfg g (file :: files)).run.run s =
      (c.dependencies cfg ((document? s.disk cfg file).elim g fun d => g.merge (.extract d))
        files).run.run { s with err } := by
  rw [dependencies, document?]
  cases hexcluded : cfg.excludes file with
  | true => exact ⟨s.err, rfl⟩
  | false =>
      obtain ⟨content, hcontent⟩ := hread hexcluded
      have hdisk : Act.disk.run.run s = (.ok s.disk, s) := rfl
      have hget : (Act.ofExcept DiskError.message (s.disk.read file)).run.run s =
          (.ok content, s) := by
        rw [hcontent]
        rfl
      rw [if_neg Bool.false_ne_true, if_neg Bool.false_ne_true, Act.run_bind hdisk,
        Act.run_bind hget, hcontent]
      show ∃ err, _ = (c.dependencies cfg ((Document.parse content file).toOption.elim g
        fun d => g.merge (.extract d)) files).run.run { s with err }
      cases Document.parse content file with
      | ok d => exact ⟨s.err, rfl⟩
      -- only the log grows
      | error e => exact ⟨_, Act.run_bind rfl⟩

/-- When all files can be read the command works with the graph of their documents. -/
theorem run_dependencies (c : Call) (cfg : Config) {files : List String} {s : Session}
    (hread : ∀ file ∈ files, cfg.excludes file = false →
      ∃ content, s.disk.read file = .ok content) :
    ∃ err, (c.dependencies cfg {} files).run.run s =
      (.ok (.ofFiles (documents s.disk cfg files)), { s with err }) := by
  have hrun (g : DependencyGraph) : ∃ err, (c.dependencies cfg g files).run.run s =
      (.ok ((documents s.disk cfg files).foldl (fun g d => g.merge (.extract d)) g),
        { s with err }) := by
    induction files generalizing g s with
    | nil => exact ⟨s.err, rfl⟩
    | cons file files ih =>
        rw [List.forall_mem_cons] at hread
        obtain ⟨err, hfile⟩ := run_dependencies_cons c cfg g files hread.1
        obtain ⟨err', hfiles⟩ := ih (s := { s with err }) hread.2
          ((document? s.disk cfg file).elim g fun d => g.merge (.extract d))
        refine ⟨err', ?_⟩
        rw [hfile, hfiles]
        unfold documents
        cases hd : document? s.disk cfg file with
        | none => rw [List.filterMap_cons_none hd, Option.elim_none]
        | some d => rw [List.filterMap_cons_some hd, Option.elim_some, List.foldl_cons]
  exact hrun {}

end Call
end Cli

namespace DependencyGraph

/-- Two elements of one kind with the same attributes. -/
structure SameElement (d : Document) (id : Nat) (d' : Document) (id' : Nat) : Prop where
  kind : d.kind id = d'.kind id'
  attrs : d.attrs id = d'.attrs id'

/-- Every element of some files is also one of others. -/
def Holds (docs docs' : List Document) : Prop :=
  ∀ d ∈ docs, ∀ id ∈ d.ids, ∃ d' ∈ docs', ∃ id' ∈ d'.ids, SameElement d id d' id'

/-- The same elements, spread over files in two ways. -/
def SameElements (docs docs' : List Document) : Prop := Holds docs docs' ∧ Holds docs' docs

instance (d : Document) (id : Nat) (d' : Document) (id' : Nat) :
    Decidable (SameElement d id d' id') :=
  decidable_of_iff (d.kind id = d'.kind id' ∧ d.attrs id = d'.attrs id')
    ⟨fun h => ⟨h.1, h.2⟩, fun h => ⟨h.kind, h.attrs⟩⟩

instance (docs docs' : List Document) : Decidable (Holds docs docs') :=
  inferInstanceAs (Decidable (∀ d ∈ docs, ∀ id ∈ d.ids, ∃ d' ∈ docs', ∃ id' ∈ d'.ids,
    SameElement d id d' id'))

/-- What a package comes after is a name of its own file if it is a name of any file. -/
def SelfContained (docs : List Document) : Prop :=
  ∀ d ∈ docs, ∀ id ∈ d.ids, ∀ x, IsPackage d id x →
    (∃ d' ∈ docs, Names d' (d.attr id "After")) → Names d (d.attr id "After")

variable {docs docs' : List Document} {x y : String}

section Elements

variable {d d' : Document} {id id' : Nat}

theorem SameElement.attr (h : SameElement d id d' id') (name : String) :
    d.attr id name = d'.attr id' name := by
  unfold Document.attr Document.attr?
  rw [h.attrs]

theorem SameElement.isPackage (h : SameElement d id d' id') (hx : IsPackage d id x) :
    IsPackage d' id' x := by
  obtain ⟨hkind, hgiven, hname⟩ := hx
  rw [h.kind] at hkind
  simp only [h.attr] at hname
  exact ⟨hkind, hgiven, hname⟩

theorem SameElement.isAction (h : SameElement d id d' id') (hx : IsAction d id x) :
    IsAction d' id' x :=
  ⟨h.kind ▸ hx.kind, hx.given, h.attr "Action" ▸ hx.name⟩

theorem SameElement.isModule (h : SameElement d id d' id') (hx : IsModule d id x) :
    IsModule d' id' x :=
  ⟨h.kind ▸ hx.kind, hx.given, h.attr "Id" ▸ hx.name⟩

theorem SameElement.nameless_iff (h : SameElement d id d' id') :
    Nameless d id ↔ Nameless d' id' := by
  unfold Nameless
  simp only [h.kind, h.attr]

/-- Elements alike name the same. -/
theorem SameElement.namesAt (h : SameElement d id d' id') (hx : NamesAt d id x) :
    NamesAt d' id' x := by
  cases hx with
  | package hx => exact .package (h.isPackage hx)
  | action hx => exact .action (h.isAction hx)
  | after hx hafter hne => exact .after (h.isAction hx) (h.attr "After" ▸ hafter) hne
  | before hx hbefore hne => exact .before (h.isAction hx) (h.attr "Before" ▸ hbefore) hne
  | mergeModule hx => exact .mergeModule (h.isModule hx)
  | dialogs hkind => exact .dialogs (h.kind ▸ hkind)
  | extension hname ha hstart hext hne =>
      exact .extension (h.nameless_iff.not.mp hname) (h.attrs ▸ ha) hstart hext hne

/-- Elements alike make the same edges. -/
theorem SameElement.link (h : SameElement d id d' id') (hxy : (x, y) ∈ linksAt d id) :
    (x, y) ∈ linksAt d' id' := by
  rcases mem_linksAt.mp hxy with ⟨hx, hafter⟩ | ⟨hx, hafter⟩ | ⟨hy, hbefore⟩
  · exact mem_linksAt.mpr (Or.inl ⟨h.isPackage hx, h.attr "After" ▸ hafter⟩)
  · exact mem_linksAt.mpr (Or.inr (Or.inl ⟨h.isAction hx, h.attr "After" ▸ hafter⟩))
  · exact mem_linksAt.mpr (Or.inr (Or.inr ⟨h.isAction hy, h.attr "Before" ▸ hbefore⟩))

/-- A list with all elements of another has its names. -/
theorem Holds.names (h : Holds docs docs') (hx : ∃ d ∈ docs, Names d x) :
    ∃ d' ∈ docs', Names d' x := by
  obtain ⟨d, hd, id, hid, hname⟩ := hx
  obtain ⟨d', hd', id', hid', hsame⟩ := h d hd id hid
  exact ⟨d', hd', id', hid', hsame.namesAt hname⟩

/-- A list with all elements of another has its edges. -/
theorem Holds.links (h : Holds docs docs') (hxy : ∃ d ∈ docs, ∃ id ∈ d.ids, (x, y) ∈ linksAt d id) :
    ∃ d' ∈ docs', ∃ id' ∈ d'.ids, (x, y) ∈ linksAt d' id' := by
  obtain ⟨d, hd, id, hid, hlink⟩ := hxy
  obtain ⟨d', hd', id', hid', hsame⟩ := h d hd id hid
  exact ⟨d', hd', id', hid', hsame.link hlink⟩

end Elements

section Merged

/-- The graph of some files is the merge of their graphs. -/
theorem ofFiles_eq (docs : List Document) : ofFiles docs = mergeAll (docs.map extract) :=
  List.foldl_map.symm

theorem built_extracts (docs : List Document) : ∀ g ∈ docs.map extract, g.Built := by
  intro g hg
  obtain ⟨d, -, rfl⟩ := List.mem_map.mp hg
  exact built_extract d

theorem built_ofFiles (docs : List Document) : (ofFiles docs).Built := by
  rw [ofFiles_eq]
  exact built_mergeAll (built_extracts docs)

/-- The names of all files. -/
theorem has_ofFiles : (ofFiles docs).has x = true ↔ ∃ d ∈ docs, Names d x := by
  rw [ofFiles_eq, has_mergeAll (built_extracts docs), List.any_map, List.any_eq_true]
  simp only [Function.comp_apply, has_extract]

/-- The edges of all files. -/
theorem edge_ofFiles :
    (ofFiles docs).Edge x y ↔ ∃ d ∈ docs, ∃ id ∈ d.ids, DependsAt d id x y := by
  rw [ofFiles_eq, edge_mergeAll (built_extracts docs)]
  simp only [List.mem_map, exists_exists_and_eq_and, edge_extract]

/-- Files are self-contained when each names what its packages come after. -/
theorem selfContained_of_names
    (h : ∀ d ∈ docs, ∀ id ∈ d.ids, d.attr id "After" = "" ∨ Names d (d.attr id "After")) :
    SelfContained docs := by
  rintro d hd id hid x - ⟨d', -, id', -, hname⟩
  exact (h d hd id hid).resolve_left hname.ne_empty

/-- Nothing that is asked for is dropped, wherever its target is declared. -/
theorem SelfContained.edge_iff (h : SelfContained docs) :
    (ofFiles docs).Edge x y ↔
      (∃ d ∈ docs, ∃ id ∈ d.ids, (x, y) ∈ linksAt d id) ∧ ∃ d ∈ docs, Names d y := by
  rw [edge_ofFiles]
  constructor
  · rintro ⟨d, hd, id, hid, hedge⟩
    obtain ⟨hlink, hy⟩ := (dependsAt_iff hid).mp hedge
    exact ⟨⟨d, hd, id, hid, hlink⟩, d, hd, hy⟩
  · rintro ⟨⟨d, hd, id, hid, hlink⟩, hnamed⟩
    refine ⟨d, hd, id, hid, ?_⟩
    rcases mem_linksAt.mp hlink with ⟨hx, rfl, -⟩ | ⟨hx, hafter, hne⟩ | ⟨hy, hbefore, hne⟩
    · exact .package hx rfl (h d hd id hid x hx hnamed)
    · exact .after hx hafter hne
    · exact .before hy hbefore hne

/-- The same elements give the same names, in whatever files. -/
theorem SameElements.has_eq (h : SameElements docs docs') (x : String) :
    (ofFiles docs).has x = (ofFiles docs').has x := by
  rw [Bool.eq_iff_iff, has_ofFiles, has_ofFiles]
  exact ⟨h.1.names, h.2.names⟩

/-- The same elements give the same graph when no edge crosses files. -/
theorem SameElements.alike (h : SameElements docs docs') (hdocs : SelfContained docs)
    (hdocs' : SelfContained docs') : (ofFiles docs).Alike (ofFiles docs') := by
  refine (built_ofFiles docs).alike (built_ofFiles docs') h.has_eq fun x y => ?_
  rw [hdocs.edge_iff, hdocs'.edge_iff]
  exact ⟨fun hxy => ⟨h.1.links hxy.1, h.1.names hxy.2⟩,
    fun hxy => ⟨h.2.links hxy.1, h.2.names hxy.2⟩⟩

end Merged

/-- **Files beside each other.**  The graph of several files has the names of all of them and the
edges that each of them has for itself, so a package depends on what it comes after if a file that
says so names it.  Elements may move between files without a change of the names.  If the files
are self-contained then a package depends on whatever it comes after, and elements that move
between such files change neither edges nor cycles nor the order. -/
theorem files_spec (docs : List Document) :
    (∀ x, (ofFiles docs).has x = true ↔ ∃ d ∈ docs, Names d x) ∧
    (∀ x y, (ofFiles docs).Edge x y ↔ ∃ d ∈ docs, ∃ id ∈ d.ids, DependsAt d id x y) ∧
    (SelfContained docs → ∀ d ∈ docs, ∀ id ∈ d.ids, ∀ x, IsPackage d id x →
      (ofFiles docs).has (d.attr id "After") = true →
      (ofFiles docs).Edge x (d.attr id "After")) ∧
    (∀ docs', SameElements docs docs' → (ofFiles docs).names = (ofFiles docs').names ∧
      (SelfContained docs → SelfContained docs' → (ofFiles docs).Alike (ofFiles docs'))) := by
  refine ⟨fun x => has_ofFiles, fun x y => edge_ofFiles, ?_, ?_⟩
  · intro hself d hd id hid x hx hnamed
    exact edge_ofFiles.mpr ⟨d, hd, id, hid,
      .package hx rfl (hself d hd id hid x hx (has_ofFiles.mp hnamed))⟩
  · intro docs' hsame
    exact ⟨(built_ofFiles docs).coherent.names_eq (built_ofFiles docs').coherent hsame.has_eq,
      hsame.alike⟩

/-- Three packages, of which one comes after another one.  The edge is there where these two stand
in one file, wherever the third one stands, and is missing where they stand in two. -/
theorem files_spec_apart :
    let file (packages : List (List Attribute)) : Document :=
      ⟨"", [], (⟨"Wix", [], List.range' 1 packages.length, none, ⟨1, 1, 1, 1⟩, "", none⟩ ::
        packages.map fun attrs =>
          ⟨"MsiPackage", attrs, [], some 0, ⟨1, 1, 1, 1⟩, "", none⟩).toArray⟩
    let a := [⟨"Id", "a"⟩, ⟨"After", "b"⟩]
    let b := [⟨"Id", "b"⟩]
    let c := [⟨"Id", "c"⟩]
    let near := [file [a, b], file [c]]
    let moved := [file [c, a, b]]
    let apart := [file [a, c], file [b]]
    SelfContained near ∧ SelfContained moved ∧ SameElements near moved ∧
      IsPackage (file [a, b]) 1 "a" ∧ (ofFiles near).has "b" = true ∧
      (ofFiles near).Edge "a" "b" ∧ (ofFiles near).Alike (ofFiles moved) ∧
      SameElements near apart ∧ (ofFiles near).names = (ofFiles apart).names ∧
      IsPackage (file [a, c]) 1 "a" ∧ (ofFiles apart).has "b" = true ∧
      ¬(ofFiles apart).Edge "a" "b" := by
  intro file a b c near moved apart
  obtain ⟨hnames, -, hedge, hmove⟩ := files_spec near
  obtain ⟨hnames', hedges', -, -⟩ := files_spec apart
  have hnear : SelfContained near := selfContained_of_names (by decide)
  have hmoved : SelfContained moved := selfContained_of_names (by decide)
  have hsame : SameElements near moved := ⟨by decide, by decide⟩
  have hsame' : SameElements near apart := ⟨by decide, by decide⟩
  have ha : IsPackage (file [a, b]) 1 "a" := ⟨by decide, by decide, Or.inl rfl⟩
  have ha' : IsPackage (file [a, c]) 1 "a" := ⟨by decide, by decide, Or.inl rfl⟩
  have hb : (ofFiles near).has "b" = true := (hnames _).mpr (by decide)
  refine ⟨hnear, hmoved, hsame, ha, hb, ?_, (hmove moved hsame).2 hnear hmoved, hsame',
    (hmove apart hsame').1, ha', (hnames' _).mpr (by decide), ?_⟩
  · exact hedge hnear (file [a, b]) List.mem_cons_self 1 (by decide) "a" ha hb
  · rw [hedges']
    rintro ⟨d, hd, id, hid, h⟩
    have hnone : ∀ d ∈ apart, ¬(Names d "a" ∧ Names d "b") := by decide
    exact hnone d hd (names_of_edge (edge_extract.mpr ⟨id, hid, h⟩))

end DependencyGraph
end InstallerLint
