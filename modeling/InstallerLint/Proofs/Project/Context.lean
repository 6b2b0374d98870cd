import InstallerLint.Proofs.Analysis.Digest
import InstallerLint.Proofs.Cache.Directory
import InstallerLint.Proofs.Document.Starts
import InstallerLint.Proofs.Symbol.Digest

/-!
# What a context covers

The result for a document depends on the analyser, on the document, and on what the checks ask about
the symbols of all other documents.  A context key stands for the analyser and for these symbols.

**Symbols.**  The checks ask which keys are defined, which are referred to, and for the duplicates in
the file of the document.  The digest of the symbols shows of a duplicate its id and where both
definitions start.  It shows neither the kind of the first definition nor where it ends, although
both are reported; so two indexes with one digest are known to be alike for a document only if they
agree in them (`FirstsAgree`, `verdict_eq_of_sameTables`).

**Keys.**  A `Snapshot` is what a run works with.  When the hashes of two runs do not collide, the
same key means the same analyser and the same tables of symbols, so what one run found for a file is
what the other would find (`Snapshot.serves_of_apart`).
-/

namespace InstallerLint

section Lists

variable {α β γ : Type} {f : α → β} {g : α → Option γ} {l l' : List α} {names : List β}

/-- Lists with the same entries, whose names stand in one order and each once, are equal. -/
theorem eq_of_perm_of_sublist (hnames : names.Nodup) (h : (l.map f).Sublist names)
    (h' : (l'.map f).Sublist names) (hperm : l.Perm l') : l = l' := by
  induction names generalizing l l' with
  | nil =>
      obtain rfl : l = [] := List.map_eq_nil_iff.mp (List.sublist_nil.mp h)
      exact hperm.nil_eq
  | cons n names ih =>
      obtain ⟨hn, hrest⟩ := List.nodup_cons.mp hnames
      have hout : ∀ {k k' : List α}, (k.map f).Sublist names → k'.Perm k → ∀ x ∈ k', f x ≠ n := by
        intro k k' hk hp x hx hf
        exact hn (hf ▸ hk.subset (List.mem_map_of_mem (hp.subset hx)))
      rcases List.sublist_cons_iff.mp h with h | ⟨t, ht, hsub⟩
      · rcases List.sublist_cons_iff.mp h' with h' | ⟨t', ht', -⟩
        · exact ih hrest h h' hperm
        · obtain ⟨x, k', rfl, hx, -⟩ := List.map_eq_cons_iff.mp ht'
          exact absurd hx (hout h hperm.symm x List.mem_cons_self)
      · obtain ⟨x, k, rfl, hx, rfl⟩ := List.map_eq_cons_iff.mp ht
        rcases List.sublist_cons_iff.mp h' with h' | ⟨t', ht', hsub'⟩
        · exact absurd hx (hout h' hperm x List.mem_cons_self)
        · obtain ⟨x', k', rfl, hx', rfl⟩ := List.map_eq_cons_iff.mp ht'
          -- the name of the first entry is not found again, so both lists begin with that entry
          obtain rfl : x = x' := by
            rcases List.mem_cons.mp (hperm.subset List.mem_cons_self) with heq | hmem
            · exact heq
            · exact absurd hx (hout hsub' (List.Perm.refl _) x hmem)
          rw [ih hrest hsub hsub' hperm.cons_inv]

/-- What is collected from two lists is the same if it can be read off what they have in common. -/
theorem filterMap_eq_of_map_eq (h : l.map f = l'.map f)
    (hg : ∀ a ∈ l, ∀ b ∈ l', f a = f b → g a = g b) : l.filterMap g = l'.filterMap g := by
  induction l generalizing l' with
  | nil =>
      obtain rfl : l' = [] := List.map_eq_nil_iff.mp h.symm
      rfl
  | cons a l ih =>
      obtain ⟨b, l', rfl, hb, hl⟩ := List.map_eq_cons_iff.mp h.symm
      have hhead := hg a List.mem_cons_self b List.mem_cons_self hb.symm
      have htail := ih hl.symm fun x hx y hy =>
        hg x (List.mem_cons_of_mem _ hx) y (List.mem_cons_of_mem _ hy)
      rw [List.filterMap_cons, List.filterMap_cons, hhead, htail]

end Lists

section Answers

variable {d : Document} {r r' : Resolver}

/-- What a check asks about other documents. -/
theorem Check.run_eq_of_answers (c : Check) {level : Severity}
    (hdefined : r.isDefined = r'.isDefined) (hreferred : r.isReferenced = r'.isReferenced)
    (hduplicates : duplicatesIn level d r = duplicatesIn level d r') :
    c.run level d r = c.run level d r' := by
  cases c with
  | malformed => rfl
  | circular => rfl
  | duplicate => exact hduplicates
  | unresolved =>
      unfold run unresolvedIn unresolved?
      rw [hdefined]
  | orphan =>
      unfold run orphansIn orphan?
      rw [hreferred]

/-- The result for a document depends on the answers to these questions alone. -/
theorem Analyzer.verdict_eq_of_answers (a : Analyzer)
    (hdefined : ∀ kind id, r.isDefined kind id = r'.isDefined kind id)
    (hreferred : ∀ kind id, r.isReferenced kind id = r'.isReferenced kind id)
    (hduplicates : ∀ level, Check.duplicatesIn level d r = Check.duplicatesIn level d r') :
    a.verdict d r = a.verdict d r' := by
  have hchecks : a.checkFindings d r = a.checkFindings d r' :=
    List.flatMap_congr fun x _ => x.1.run_eq_of_answers
      (funext fun kind => funext (hdefined kind)) (funext fun kind => funext (hreferred kind))
      (hduplicates x.2)
  unfold verdict analyze findings
  rw [hchecks]

end Answers

namespace SymbolIndex

/-- The duplicates whose later definition stands in a file. -/
def duplicatesOf (ix : SymbolIndex) (file : String) : List Duplicate :=
  ix.dups.filter fun p => p.second.location.file = file

/-- Of duplicates in a file with one record in the digest, the first definitions have one kind and
end at one place. -/
def FirstsAgree (file : String) (ix ix' : SymbolIndex) : Prop :=
  ∀ p ∈ ix.duplicatesOf file, ∀ p' ∈ ix'.duplicatesOf file, p.places = p'.places →
    p.first.kind = p'.first.kind ∧ p.first.location = p'.first.location

theorem SameTables.isDefined_eq {ix ix' : SymbolIndex} (h : SameTables ix ix') (kind id : String) :
    ix.isDefined kind id = ix'.isDefined kind id :=
  h.defined (.of kind id)

theorem SameTables.isReferenced_eq {ix ix' : SymbolIndex} (h : SameTables ix ix')
    (kind id : String) : ix.isReferenced kind id = ix'.isReferenced kind id := by
  unfold isReferenced
  rw [Bool.not_inj_iff, Bool.eq_iff_iff, List.isEmpty_iff_length_eq_zero,
    List.isEmpty_iff_length_eq_zero, h.referred]

/-- Tables that are the same answer the questions of the checks alike, up to the duplicates. -/
theorem SameTables.verdict_eq {ix ix' : SymbolIndex} (h : SameTables ix ix') (a : Analyzer)
    {d : Document} (hduplicates : ∀ level,
      Check.duplicatesIn level d ix.resolver = Check.duplicatesIn level d ix'.resolver) :
    a.verdict d ix.resolver = a.verdict d ix'.resolver :=
  a.verdict_eq_of_answers h.isDefined_eq h.isReferenced_eq hduplicates

theorem sublist_laterAfter (seen defs : List Definition) :
    ((laterAfter seen defs).map (·.second)).Sublist defs := by
  induction defs generalizing seen with
  | nil => exact List.Sublist.refl []
  | cons x defs ih =>
      rw [laterAfter, List.map_append]
      unfold pairWith
      cases firstOf seen x.key with
      | none => exact (ih _).cons x
      | some first => exact (ih _).cons_cons x

end SymbolIndex

namespace Project

open SymbolIndex

section Documents

variable {docs docs' : List Document} {d : Document}

theorem filter_definitions (hpaths : (docs.map (·.path)).Nodup) (hd : d ∈ docs) :
    (docs.flatMap (·.definitions)).filter (fun x => x.location.file = d.path) =
      d.definitions := by
  induction docs with
  | nil => cases hd
  | cons e docs ih =>
      rw [List.map_cons, List.nodup_cons] at hpaths
      rw [List.flatMap_cons, List.filter_append]
      by_cases hpath : e.path = d.path
      · obtain rfl : d = e := by
          rcases List.mem_cons.mp hd with rfl | hd
          · rfl
          · exact absurd (List.mem_map_of_mem hd) (hpath ▸ hpaths.1)
        have hown : d.definitions.filter (fun x => x.location.file = d.path) = d.definitions :=
          List.filter_eq_self.mpr fun x hx => by simpa using Document.file_of_mem_definitions hx
        have hrest : (docs.flatMap (·.definitions)).filter
            (fun x => x.location.file = d.path) = [] := by
          rw [List.filter_eq_nil_iff]
          intro x hx hfile
          obtain ⟨e, he, hx⟩ := List.mem_flatMap.mp hx
          rw [decide_eq_true_eq, Document.file_of_mem_definitions hx] at hfile
          exact hpaths.1 (hfile ▸ List.mem_map_of_mem he)
        rw [hown, hrest, List.append_nil]
      · have hne : d ≠ e := fun heq => hpath (heq ▸ rfl)
        have hother : e.definitions.filter (fun x => x.location.file = d.path) = [] := by
          rw [List.filter_eq_nil_iff]
          intro x hx
          rw [Document.file_of_mem_definitions hx, decide_eq_true_eq]
          exact hpath
        rw [hother, List.nil_append]
        exact ih hpaths.2 ((List.mem_cons.mp hd).resolve_left hne)

/-- No two definitions of a document start at the same place. -/
theorem nodup_places {source : Bytes} {path : String}
    (hparse : Document.parse source path = .ok d) :
    (d.definitions.map fun x => x.location.place).Nodup := by
  have hids : d.ids = List.range d.size := Document.ids_of_parse hparse
  unfold Document.definitions
  rw [hids, List.Nodup, List.pairwise_map, List.pairwise_filterMap]
  refine List.nodup_range.imp_of_mem fun {i j} hi hj hne x hx y hy hplace => hne ?_
  obtain ⟨-, -, rfl⟩ := Document.definition?_eq_some_iff.mp hx
  obtain ⟨-, -, rfl⟩ := Document.definition?_eq_some_iff.mp hy
  obtain ⟨hline, hcol⟩ := Prod.mk.inj (Prod.mk.inj hplace).2
  exact Document.start_injective hparse (List.mem_range.mp hi) (List.mem_range.mp hj)
    (Int.ofNat.inj hline) (Int.ofNat.inj hcol)

/-- The later definitions of a document that are recorded stand in its order. -/
theorem sublist_duplicatesOf (hpaths : (docs.map (·.path)).Nodup) (hd : d ∈ docs) :
    (((indexOf docs).duplicatesOf d.path).map (·.second)).Sublist d.definitions := by
  have hsub := (sublist_laterAfter [] (docs.flatMap (·.definitions))).filter
    fun x => x.location.file = d.path
  rw [filter_definitions hpaths hd, List.filter_map] at hsub
  rw [duplicatesOf, dups_indexOf hpaths]
  exact hsub

/-- When the tables of two projects are the same, a document has the same duplicates in both, as
far as the digest shows. -/
theorem places_duplicatesOf {source : Bytes} {path : String}
    (hparse : Document.parse source path = .ok d)
    (hpaths : (docs.map (·.path)).Nodup) (hpaths' : (docs'.map (·.path)).Nodup)
    (hd : d ∈ docs) (hd' : d ∈ docs') (hsame : SameTables (indexOf docs) (indexOf docs')) :
    ((indexOf docs).duplicatesOf d.path).map Duplicate.places =
      ((indexOf docs').duplicatesOf d.path).map Duplicate.places := by
  have hsub : ∀ {docs : List Document}, (docs.map (·.path)).Nodup → d ∈ docs →
      ((((indexOf docs).duplicatesOf d.path).map Duplicate.places).map fun p => p.2.2).Sublist
        (d.definitions.map fun x => x.location.place) := by
    intro docs hpaths hd
    have := (sublist_duplicatesOf hpaths hd).map fun x => x.location.place
    rw [List.map_map] at this ⊢
    exact this
  have hfilter : ∀ ix : SymbolIndex, (ix.duplicatesOf d.path).map Duplicate.places =
      (ix.dups.map Duplicate.places).filter fun p => p.2.2.1 = d.path := by
    intro ix
    rw [List.filter_map]
    rfl
  refine eq_of_perm_of_sublist (nodup_places hparse) (hsub hpaths hd) (hsub hpaths' hd') ?_
  rw [hfilter, hfilter]
  exact hsame.duplicates.filter _

/-- The check for duplicates finds the same in a document of two projects with the same tables whose
first definitions agree. -/
theorem duplicatesIn_eq_of_sameTables {source : Bytes} {path : String}
    (hparse : Document.parse source path = .ok d)
    (hpaths : (docs.map (·.path)).Nodup) (hpaths' : (docs'.map (·.path)).Nodup)
    (hd : d ∈ docs) (hd' : d ∈ docs') (hsame : SameTables (indexOf docs) (indexOf docs'))
    (hfirsts : FirstsAgree d.path (indexOf docs) (indexOf docs')) (level : Severity) :
    Check.duplicatesIn level d (indexOf docs).resolver =
      Check.duplicatesIn level d (indexOf docs').resolver := by
  have hown : ∀ ix : SymbolIndex, Check.duplicatesIn level d ix.resolver =
      (ix.duplicatesOf d.path).filterMap (Check.duplicate? level d.path) := by
    intro ix
    rw [duplicatesOf, List.filterMap_filter]
    refine List.filterMap_congr fun p _ => ?_
    by_cases hfile : p.second.location.file = d.path
    · simp [hfile]
    · simp [Check.duplicate?, hfile]
  rw [hown, hown]
  refine filterMap_eq_of_map_eq (places_duplicatesOf hparse hpaths hpaths' hd hd' hsame) ?_
  intro p hp p' hp' hplaces
  obtain ⟨hkind, hfirst⟩ := hfirsts p hp p' hp' hplaces
  have hsecond : p.second = p'.second := by
    refine List.inj_on_of_nodup_map (nodup_places hparse) ?_ ?_ (congrArg (·.2.2) hplaces)
    · exact (sublist_duplicatesOf hpaths hd).subset (List.mem_map_of_mem hp)
    · exact (sublist_duplicatesOf hpaths' hd').subset (List.mem_map_of_mem hp')
  unfold Check.duplicate?
  rw [hkind, hfirst, hsecond]

/-- A document has the same result in two projects with the same tables whose first definitions
agree. -/
theorem verdict_eq_of_sameTables (a : Analyzer) {source : Bytes} {path : String}
    (hparse : Document.parse source path = .ok d)
    (hpaths : (docs.map (·.path)).Nodup) (hpaths' : (docs'.map (·.path)).Nodup)
    (hd : d ∈ docs) (hd' : d ∈ docs') (hsame : SameTables (indexOf docs) (indexOf docs'))
    (hfirsts : FirstsAgree d.path (indexOf docs) (indexOf docs')) :
    a.verdict d (indexOf docs).resolver = a.verdict d (indexOf docs').resolver := by
  exact hsame.verdict_eq a
    (duplicatesIn_eq_of_sameTables hparse hpaths hpaths' hd hd' hsame hfirsts)

end Documents

/-- What a run works with: its rules, its settings and the documents that it read. -/
structure Snapshot where
  rules : List Rule
  cfg : Config
  docs : List Document

namespace Snapshot

/-- The analyser of the run. -/
def analyzer (x : Snapshot) : Analyzer := .new x.rules x.cfg

/-- The index of the run. -/
def index (x : Snapshot) : SymbolIndex := indexOf x.docs

/-- The context that results of the run are stored under. -/
def key (x : Snapshot) : String := contextKey x.analyzer x.index

/-- What the context is a hash of. -/
def keyText (x : Snapshot) : String := x.analyzer.digest ++ "|" ++ x.index.digest

/-- What the run finds in a document. -/
def verdict (x : Snapshot) (d : Document) : FileResult := x.analyzer.verdict d x.index.resolver

/-- All rules have a level, and the documents were read from different files, whose paths have no
zero character. -/
structure Proper (x : Snapshot) : Prop where
  graded : ∀ r ∈ x.rules, r.severity ≠ .unset
  parsed : ∀ d ∈ x.docs, Document.parse d.source d.path = .ok d
  distinct : (x.docs.map (·.path)).Nodup
  clear : ∀ d ∈ x.docs, Char.ofNat 0 ∉ d.path.toList

/-- What the hashes of two runs tell apart. -/
structure Apart (x y : Snapshot) : Prop where
  sources : ∀ e ∈ x.docs, ∀ d ∈ y.docs,
    CacheEntry.hashOf e.source = CacheEntry.hashOf d.source → e.source = d.source
  rules : Hash.xxh64 x.analyzer.payloadBytes = Hash.xxh64 y.analyzer.payloadBytes →
    x.analyzer.payloadBytes = y.analyzer.payloadBytes
  symbols : x.index.digest = y.index.digest → x.index.digestText = y.index.digestText
  key : x.key = y.key → x.keyText = y.keyText

/-- When two runs have one key, the first definitions of the duplicates in their common documents
agree. -/
def Agree (x y : Snapshot) : Prop :=
  x.key = y.key → ∀ d ∈ x.docs, d ∈ y.docs → FirstsAgree d.path x.index y.index

/-- What the first run stores for a file is what the second one finds when it has the same key and
reads the same content. -/
def Serves (x y : Snapshot) : Prop :=
  ∀ e ∈ x.docs, ∀ d ∈ y.docs, e.path = d.path →
    CacheEntry.hashOf e.source = CacheEntry.hashOf d.source → x.key = y.key →
    x.verdict e = y.verdict d

variable {x y : Snapshot}

theorem bar_not_mem_digest (hx : x.Proper) : '|' ∉ x.analyzer.digest.toList := by
  rw [analyzer, Analyzer.digest_new x.cfg hx.graded, Hash.xxh64, Hash.hex64, String.toList_ofList]
  exact fun hmem => absurd (Cache.mem_hexWidth hmem) (by decide)

/-- The two digests are found again in what the context is a hash of. -/
theorem digests_eq_of_keyText_eq (hx : x.Proper) (hy : y.Proper) (h : x.keyText = y.keyText) :
    x.analyzer.digest = y.analyzer.digest ∧ x.index.digest = y.index.digest := by
  have hcut : x.analyzer.digest.toList ++ '|' :: x.index.digest.toList =
      y.analyzer.digest.toList ++ '|' :: y.index.digest.toList := by
    simpa [keyText, String.toList_append] using congrArg String.toList h
  obtain ⟨hrules, hsymbols⟩ :=
    (Fields.append_cons_inj (bar_not_mem_digest hx) (bar_not_mem_digest hy)).mp hcut
  exact ⟨String.toList_inj.mp hrules, String.toList_inj.mp hsymbols⟩

/-- One key means one analyser and the same tables of symbols. -/
theorem same_of_key_eq (hx : x.Proper) (hy : y.Proper) (hapart : x.Apart y) (h : x.key = y.key) :
    x.analyzer = y.analyzer ∧ SameTables x.index y.index := by
  obtain ⟨hrules, hsymbols⟩ := digests_eq_of_keyText_eq hx hy (hapart.key h)
  rw [analyzer, analyzer, Analyzer.digest_new x.cfg hx.graded,
    Analyzer.digest_new y.cfg hy.graded] at hrules
  have hbytes := hapart.rules hrules
  refine ⟨Analyzer.new_eq_of_payload_eq (Analyzer.payload_eq_of_bytes_eq hbytes), ?_⟩
  have hclear : ∀ {z : Snapshot}, z.Proper → z.index.IsClear := fun hz =>
    isClear_indexOf (fun d hd => ⟨_, _, hz.parsed d hd⟩) hz.clear
  exact ((hclear hx).same_text_iff (hclear hy)).mp (hapart.symbols hsymbols)

theorem serves_of_apart (hx : x.Proper) (hy : y.Proper) (hapart : x.Apart y)
    (hagree : x.Agree y) : x.Serves y := by
  intro e he d hd hpath hhash hkey
  obtain ⟨hanalyzer, hsame⟩ := same_of_key_eq hx hy hapart hkey
  -- one path with one content is one document
  have hparse := hx.parsed e he
  rw [hapart.sources e he d hd hhash, hpath, hy.parsed d hd] at hparse
  obtain rfl : d = e := Except.ok.inj hparse
  unfold verdict
  rw [hanalyzer]
  exact verdict_eq_of_sameTables _ (hy.parsed d hd) hx.distinct hy.distinct he hd hsame
    (hagree hkey d he hd)

/-- A run serves itself. -/
theorem serves_self (hx : x.Proper) : x.Serves x := by
  intro e he d hd hpath _ _
  rw [List.inj_on_of_nodup_map hx.distinct he hd hpath]

end Snapshot

end Project

end InstallerLint
