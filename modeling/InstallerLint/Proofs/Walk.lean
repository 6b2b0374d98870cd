import InstallerLint.Proofs.Assoc
import InstallerLint.Proofs.Disk.Tree
import InstallerLint.Proofs.Order
import InstallerLint.Proofs.Path
import InstallerLint.Walk.Basic

/-!
# Which files a walk finds

**Files of a tree.**  `Entry.files` lists all files of a tree, each with the names that lead to it.
In a tree whose names are distinct these are the files that `get?` finds (`mem_files`), each once
(`nodup_files`).  A walk lists no more than these unless it follows links (`Linkless`).

**Skipping.**  The walker does not enter a directory that it skips; so it finds a file if nothing on
the way to the file keeps it out.  Such a way is `clear`, and what the walker lists is what remains
of all files when the others are dropped (`filesIn_eq`).

**The main result** is `mem_collect`: the files that are found are those that pass a test of their
names and sizes (`Passes`), in strictly increasing order.
-/

namespace InstallerLint

namespace Entry

/-- A tree without links whose directories hold proper names, each once. -/
structure Plain (e : Entry) : Prop where
  names : ∀ way es, e.get? way = some (.dir es) →
    (es.map Prod.fst).Nodup ∧ ∀ x ∈ es, Path.Proper x.1
  noLink : ∀ way target, e.get? way ≠ some (.link target)

/-- A tree whose directories hold proper names, each once. -/
structure Named (e : Entry) : Prop where
  names : ∀ way es, e.get? way = some (.dir es) →
    (es.map Prod.fst).Nodup ∧ ∀ x ∈ es, Path.Proper x.1

theorem Plain.named {e : Entry} (h : e.Plain) : e.Named := ⟨h.names⟩

mutual

/-- All files of a tree, each with the names that lead to it. -/
def files : Entry → List (List String × Bytes × Int)
  | file content modified => [([], content, modified)]
  | link _ => []
  | dir es => filesIn es

/-- The files of the entries of a directory. -/
def filesIn : List (String × Entry) → List (List String × Bytes × Int)
  | [] => []
  | x :: es => filesOf x ++ filesIn es

/-- The files of an entry of a directory. -/
def filesOf : String × Entry → List (List String × Bytes × Int)
  | (name, e) => (files e).map fun f => (name :: f.1, f.2)

end

section Plain

variable {es : List (String × Entry)} {x : String × Entry}

theorem get?_cons_of_mem (hes : (es.map Prod.fst).Nodup) (hx : x ∈ es) (way : List String) :
    (dir es).get? (x.1 :: way) = x.2.get? way := by
  rw [get?, child?, entries, Assoc.lookup_eq_some_of_mem hes (show (x.1, x.2) ∈ es from hx)]
  rfl

theorem Named.nodup (h : (dir es).Named) : (es.map Prod.fst).Nodup := (h.names [] es rfl).1

theorem Named.proper (h : (dir es).Named) (hx : x ∈ es) : Path.Proper x.1 :=
  (h.names [] es rfl).2 x hx

theorem Named.child (h : (dir es).Named) (hx : x ∈ es) : x.2.Named where
  names way es' hway := h.names (x.1 :: way) es' (by rwa [get?_cons_of_mem h.nodup hx])

theorem named_file (content : Bytes) (modified : Int) : (file content modified).Named where
  names way es hway := by
    cases way <;> cases hway

theorem named_link (target : String) : (link target).Named where
  names way es hway := by
    cases way <;> cases hway

theorem exists_of_get?_cons {name : String} {rest : List String} {e : Entry}
    (h : (dir es).get? (name :: rest) = some e) : ∃ x ∈ es, x.2.get? rest = some e := by
  obtain ⟨child, hchild, hrest⟩ := Option.bind_eq_some_iff.mp h
  exact ⟨(name, child), Assoc.mem_of_lookup_eq_some hchild, hrest⟩

theorem named_dir (hnodup : (es.map Prod.fst).Nodup)
    (h : ∀ x ∈ es, Path.Proper x.1 ∧ x.2.Named) : (dir es).Named where
  names way es' hway := by
    cases way with
    | nil =>
        obtain rfl := dir.inj (Option.some.inj hway)
        exact ⟨hnodup, fun x hx => (h x hx).1⟩
    | cons name rest =>
        obtain ⟨x, hx, hrest⟩ := exists_of_get?_cons hway
        exact (h x hx).2.names rest es' hrest

theorem plain_file (content : Bytes) (modified : Int) : (file content modified).Plain where
  names := (named_file content modified).names
  noLink way target hway := by
    cases way <;> cases hway

theorem plain_dir (hnodup : (es.map Prod.fst).Nodup)
    (h : ∀ x ∈ es, Path.Proper x.1 ∧ x.2.Plain) : (dir es).Plain where
  names := (named_dir hnodup fun x hx => ⟨(h x hx).1, (h x hx).2.named⟩).names
  noLink way target hway := by
    cases way with
    | nil => cases hway
    | cons name rest =>
        obtain ⟨x, hx, hrest⟩ := exists_of_get?_cons hway
        exact (h x hx).2.noLink rest target hrest

end Plain

section Files

variable {way : List String} {content : Bytes} {modified : Int}

theorem mem_filesOf {x : String × Entry} :
    (way, content, modified) ∈ filesOf x ↔
      ∃ rest, way = x.1 :: rest ∧ (rest, content, modified) ∈ files x.2 := by
  obtain ⟨name, e⟩ := x
  rw [filesOf, List.mem_map]
  constructor
  · rintro ⟨⟨rest, c, m⟩, hf, heq⟩
    obtain ⟨rfl, rfl, rfl⟩ := heq
    exact ⟨rest, rfl, hf⟩
  · rintro ⟨rest, rfl, hf⟩
    exact ⟨_, hf, rfl⟩

theorem mem_filesIn {es : List (String × Entry)} :
    (way, content, modified) ∈ filesIn es ↔
      ∃ x ∈ es, (way, content, modified) ∈ filesOf x := by
  induction es with
  | nil => simp [filesIn]
  | cons x es ih => simp [filesIn, ih]

/-- The files that are listed are those that are found by their names; no way leads through a link. -/
theorem mem_files {e : Entry} (h : e.Named) :
    (way, content, modified) ∈ files e ↔ e.get? way = some (.file content modified) := by
  induction way generalizing e with
  | nil =>
      cases e with
      | file c m => simp [files, get?, eq_comm]
      | link target => simp [files, get?]
      | dir es =>
          refine ⟨fun hf => ?_, fun hway => by cases hway⟩
          obtain ⟨x, -, hx⟩ := mem_filesIn.mp hf
          obtain ⟨rest, hnil, -⟩ := mem_filesOf.mp hx
          cases hnil
  | cons name rest ih =>
      cases e with
      | file c m => simp [files, get?, child?, entries]
      | link target => simp [files, get?, child?, entries]
      | dir es =>
          constructor
          · intro hf
            obtain ⟨x, hx, hf⟩ := mem_filesIn.mp hf
            obtain ⟨rest', heq, hf⟩ := mem_filesOf.mp hf
            obtain ⟨rfl, rfl⟩ := List.cons.inj heq
            rw [get?_cons_of_mem h.nodup hx]
            exact (ih (h.child hx)).mp hf
          · intro hway
            obtain ⟨child, hchild, hrest⟩ := Option.bind_eq_some_iff.mp hway
            have hx : (name, child) ∈ es := Assoc.mem_of_lookup_eq_some hchild
            exact mem_filesIn.mpr ⟨_, hx, mem_filesOf.mpr ⟨rest, rfl, (ih (h.child hx)).mpr hrest⟩⟩

/-- The names that lead to a file are proper. -/
theorem proper_of_get? {e found : Entry} (h : e.Named) (hway : e.get? way = some found) :
    ∀ n ∈ way, Path.Proper n := by
  induction way generalizing e with
  | nil => simp
  | cons name rest ih =>
      obtain ⟨child, hchild, hrest⟩ := Option.bind_eq_some_iff.mp hway
      cases e with
      | file c m => cases hchild
      | link target => cases hchild
      | dir es =>
          have hx : (name, child) ∈ es := Assoc.mem_of_lookup_eq_some hchild
          intro n hn
          rcases List.mem_cons.mp hn with rfl | hn
          · exact h.proper hx
          · exact ih (h.child hx) hrest n hn

mutual

/-- No way leads to two files. -/
theorem nodup_files : ∀ (e : Entry), e.Named → ((files e).map Prod.fst).Nodup
  | file content modified, _ => by simp [files]
  | link _, _ => by simp [files]
  | dir es, h => nodup_filesIn es h.nodup fun _ hx => h.child hx

theorem nodup_filesIn : ∀ (es : List (String × Entry)), (es.map Prod.fst).Nodup →
    (∀ x ∈ es, x.2.Named) → ((filesIn es).map Prod.fst).Nodup
  | [], _, _ => by simp [filesIn]
  | x :: es, hnodup, h => by
      rw [List.map_cons, List.nodup_cons] at hnodup
      rw [filesIn, List.map_append, List.nodup_append]
      refine ⟨nodup_filesOf x (h x List.mem_cons_self),
        nodup_filesIn es hnodup.2 fun y hy => h y (List.mem_cons_of_mem _ hy), ?_⟩
      -- the first names differ
      rintro way hway _ hway' rfl
      obtain ⟨⟨_, content, modified⟩, hf, rfl⟩ := List.mem_map.mp hway
      obtain ⟨⟨_, content', modified'⟩, hf', heq⟩ := List.mem_map.mp hway'
      obtain ⟨rest, rfl, -⟩ := mem_filesOf.mp hf
      obtain ⟨y, hy, hf'⟩ := mem_filesIn.mp hf'
      obtain ⟨rest', rfl, -⟩ := mem_filesOf.mp hf'
      exact hnodup.1 (List.mem_map.mpr ⟨y, hy, (List.cons.inj heq).1⟩)

theorem nodup_filesOf : ∀ (x : String × Entry), x.2.Named → ((filesOf x).map Prod.fst).Nodup
  | (name, e), h => by
      have hrest := nodup_files e h
      rw [filesOf, List.map_map]
      have hcons : (Prod.fst ∘ fun f : List String × Bytes × Int => (name :: f.1, f.2)) =
          (name :: ·) ∘ Prod.fst := rfl
      rw [hcons, ← List.map_map]
      exact hrest.map fun _ _ => List.tail_eq_of_cons_eq

end

end Files

end Entry

namespace Walk

namespace Walker

/-- Whether nothing on a way keeps the walker out: no path on it is left out, and no directory on it
is skipped for its name. -/
def clear (w : Walker) (front : List String) : List String → Bool
  | [] => true
  | name :: rest =>
      !w.leavesOut (Path.ofParts false (front ++ [name])) && (rest.isEmpty || !w.skipsDir name) &&
        clear w (front ++ [name]) rest

/-- The file that a way leads to from a directory, if it counts and the way is clear. -/
def pick? (w : Walker) (front : List String) (f : List String × Bytes × Int) : Option FoundFile :=
  if w.clear front f.1 then w.hit? (Path.ofParts false (front ++ f.1)) (.file f.2.1 f.2.2) else none

/-- Links below an entry do not count: the walk follows none, or there are none. -/
def Linkless (w : Walker) (e : Entry) : Prop :=
  w.options.followLinks = false ∨ ∀ way target, e.get? way ≠ some (.link target)

section Skipping

variable (w : Walker) {front : List String} {name : String}

theorem Linkless.child {w : Walker} {es : List (String × Entry)} {x : String × Entry}
    (h : w.Linkless (.dir es)) (hes : (es.map Prod.fst).Nodup) (hx : x ∈ es) : w.Linkless x.2 :=
  h.imp_right fun hnone way target hway =>
    hnone (x.1 :: way) target (by rwa [Entry.get?_cons_of_mem hes hx])

/-- A link that does not count is no file. -/
theorem filesAt_link {w : Walker} {target : String} (h : w.Linkless (.link target)) (rel name : String) :
    w.filesAt rel name (.link target) = [] := by
  rcases h with hoff | hnone
  · simp [filesAt, file?, hoff]
  · exact absurd rfl (hnone [] target)

theorem below_ofParts (hfront : ∀ n ∈ front, Path.Proper n) (name : String) :
    below (Path.ofParts false front) name = Path.ofParts false (front ++ [name]) := by
  by_cases hne : front = []
  · subst hne
    rw [List.nil_append, Path.ofParts_of_ne_nil (List.cons_ne_nil _ _), if_neg (by decide),
      String.intercalate_singleton]
    rfl
  · have hdot : Path.ofParts false front ≠ "." := by
      intro hdot
      have hclean : Path.Clean false front := Path.clean_names hfront
      have hparts := Path.cleanParts_ofParts hclean
      rw [hdot] at hparts
      exact hne (hparts.symm.trans (by decide))
    rw [below, if_neg hdot, Path.ofParts_concat hne]

theorem pick?_cons {f : List String × Bytes × Int} (hf : f.1 ≠ []) :
    w.pick? front (name :: f.1, f.2) =
      if w.skipsDir name || w.leavesOut (Path.ofParts false (front ++ [name])) then none
      else w.pick? (front ++ [name]) f := by
  have hway : front ++ name :: f.1 = front ++ [name] ++ f.1 := by simp
  unfold pick?
  rw [clear, hway]
  cases hskip : w.skipsDir name with
  | true => simp [hf]
  | false =>
      cases hleave : w.leavesOut (Path.ofParts false (front ++ [name])) with
      | true => simp
      | false => simp

mutual

/-- What the walker lists at an entry. -/
theorem filesAt_eq : ∀ (e : Entry) {front : List String} {name : String},
    (∀ n ∈ front, Path.Proper n) → Path.Proper name → e.Named → w.Linkless e →
    w.filesAt (Path.ofParts false (front ++ [name])) name e =
      e.files.filterMap fun f => w.pick? front (name :: f.1, f.2)
  | .file content modified, front, name, _, _, _, _ => by
      rw [filesAt, Entry.files, List.filterMap_cons, List.filterMap_nil, pick?, clear]
      cases w.leavesOut (Path.ofParts false (front ++ [name])) with
      | true => simp
      | false =>
          simp only [clear, file?]
          cases w.hit? (Path.ofParts false (front ++ [name])) (.file content modified) <;> simp_all
  | .link target, _, _, _, _, _, hlinks => by rw [filesAt_link hlinks, Entry.files, List.filterMap_nil]
  | .dir es, front, name, hfront, hname, h, hlinks => by
      have hne : ∀ f ∈ Entry.filesIn es, f.1 ≠ [] := by
        rintro ⟨way, content, modified⟩ hf rfl
        obtain ⟨x, -, hx⟩ := Entry.mem_filesIn.mp hf
        obtain ⟨rest, hnil, -⟩ := Entry.mem_filesOf.mp hx
        cases hnil
      have hfront' : ∀ n ∈ front ++ [name], Path.Proper n := by
        intro n hn
        rcases List.mem_append.mp hn with hn | hn
        · exact hfront n hn
        · exact List.mem_singleton.mp hn ▸ hname
      rw [filesAt, Entry.files, List.filterMap_congr fun f hf => pick?_cons w (hne f hf)]
      split_ifs with hskip
      · -- nothing below a directory that is not entered is on a clear way
        simp
      · exact filesIn_eq es hfront' fun x hx => ⟨h.proper hx, h.child hx, hlinks.child h.nodup hx⟩

/-- What the walker lists in a directory. -/
theorem filesIn_eq : ∀ (es : List (String × Entry)) {front : List String},
    (∀ n ∈ front, Path.Proper n) → (∀ x ∈ es, Path.Proper x.1 ∧ x.2.Named ∧ w.Linkless x.2) →
    w.filesIn (Path.ofParts false front) es = (Entry.filesIn es).filterMap (w.pick? front)
  | [], _, _, _ => by rw [filesIn, Entry.filesIn, List.filterMap_nil]
  | x :: es, front, hfront, h => by
      rw [filesIn, Entry.filesIn, List.filterMap_append, fileOf_eq x hfront (h x List.mem_cons_self),
        filesIn_eq es hfront fun y hy => h y (List.mem_cons_of_mem _ hy)]

theorem fileOf_eq : ∀ (x : String × Entry) {front : List String},
    (∀ n ∈ front, Path.Proper n) → Path.Proper x.1 ∧ x.2.Named ∧ w.Linkless x.2 →
    w.fileOf (Path.ofParts false front) x = (Entry.filesOf x).filterMap (w.pick? front)
  | (name, e), front, hfront, h => by
      rw [fileOf, Entry.filesOf, List.filterMap_map, below_ofParts hfront,
        filesAt_eq e hfront h.1 h.2.1 h.2.2]
      rfl

end

theorem clear_iff {front way : List String} : w.clear front way = true ↔
    (∀ p, p ≠ [] → p <+: way → w.leavesOut (Path.ofParts false (front ++ p)) = false) ∧
      ∀ before name rest, way = before ++ name :: rest → rest ≠ [] → w.skipsDir name = false := by
  induction way generalizing front with
  | nil =>
      refine ⟨fun _ => ⟨fun p hne hp => absurd (List.prefix_nil.mp hp) hne, ?_⟩, fun _ => rfl⟩
      intro before name rest heq
      simp at heq
  | cons name rest ih =>
      rw [clear, Bool.and_eq_true, Bool.and_eq_true, Bool.or_eq_true, Bool.not_eq_true',
        Bool.not_eq_true', List.isEmpty_iff, ih]
      constructor
      · rintro ⟨⟨hhere, hname⟩, hbelow, hnames⟩
        refine ⟨fun p hne hp => ?_, fun before other rest' heq hrest => ?_⟩
        · obtain ⟨q, rfl⟩ : ∃ q, p = name :: q := by
            cases p with
            | nil => exact absurd rfl hne
            | cons n q => exact ⟨q, by rw [(List.cons_prefix_cons.mp hp).1]⟩
          by_cases hq : q = []
          · rw [hq]
            exact hhere
          · have := hbelow q hq (List.cons_prefix_cons.mp hp).2
            rwa [List.append_assoc] at this
        · cases before with
          | nil =>
              obtain ⟨rfl, rfl⟩ := List.cons.inj heq
              exact hname.resolve_left hrest
          | cons n before => exact hnames before other rest' (List.cons.inj heq).2 hrest
      · rintro ⟨hbelow, hnames⟩
        refine ⟨⟨hbelow [name] (List.cons_ne_nil _ _) (by simp), ?_⟩, fun p hne hp => ?_, ?_⟩
        · by_cases hrest : rest = []
          · exact Or.inl hrest
          · exact Or.inr (hnames [] name rest rfl hrest)
        · have := hbelow (name :: p) (List.cons_ne_nil _ _) (List.cons_prefix_cons.mpr ⟨rfl, hp⟩)
          rwa [List.append_assoc]
        · exact fun before other rest' heq => hnames (name :: before) other rest' (by rw [heq]; rfl)

end Skipping

end Walker

section Main

open Walker

/-- What the ignore file of a directory says, when it counts. -/
def ignoreLines (d : Disk) (root : String) (o : WalkOptions) : List Ignore.Line :=
  if o.useIgnoreFile then
    ((d.read (Path.join [d.abs root, ".gitignore"])).toOption.map Ignore.parse).getD []
  else []

/-- The names of directories that are asked to be skipped. -/
def skipNames (o : WalkOptions) : List String := o.skipDirs.getD SourceFile.skippedDirs

/-- A test of the names that lead to a file and of its size: the ending is asked for, the size is
allowed, no path on the way is ignored or excluded, and no directory on the way has a name to skip or
a dot in front when such are skipped. -/
structure Passes (o : WalkOptions) (lines : List Ignore.Line) (skips : String → Prop)
    (way : List String) (size : Nat) : Prop where
  ending : (∀ e ∈ o.extensions, e = "") ∨
    ∃ e ∈ o.extensions, e ≠ "" ∧ Case.lower e = SourceFile.ending ("/".intercalate way)
  size : o.maxBytes ≤ 0 ∨ (size : Int) ≤ o.maxBytes
  shown : ∀ front, front ≠ [] → front <+: way →
    Ignore.ignores lines ("/".intercalate front) = false ∧
      Glob.matchesAny o.exclude ("/".intercalate front) = false
  entered : ∀ front name rest, way = front ++ name :: rest → rest ≠ [] →
    ¬ skips name ∧ (o.skipHidden = true → Find.startsWith name "." = false)

/-- What is told of a file. -/
def told (d : Disk) (root : String) (o : WalkOptions) (way : List String) (content : Bytes)
    (modified : Int) : FoundFile where
  rel := "/".intercalate way
  path := Path.join [d.abs root, "/".intercalate way]
  size := content.length
  sha256 := if o.hash then Hash.sha256 content else ""
  ext := SourceFile.ending ("/".intercalate way)
  modified := modified

/-- The file is in a tree and passes. -/
def Wanted (d : Disk) (root : String) (o : WalkOptions) (tree : Entry) (skips : String → Prop)
    (f : FoundFile) : Prop :=
  ∃ way content modified, tree.get? way = some (.file content modified) ∧
    Passes o (ignoreLines d root o) skips way content.length ∧ f = told d root o way content modified

variable {d : Disk} {root : String} {o : WalkOptions} {es : List (String × Entry)}

/-- The walker of a directory. -/
def walker (d : Disk) (root : String) (o : WalkOptions) : Walker :=
  ⟨d, d.abs root, o, ignoreLines d root o⟩

theorem mem_nameSet {l : List String} {name : String} :
    name ∈ nameSet l ↔ ∃ s ∈ l, s ≠ "" ∧ Case.lower s = name := by
  simp [nameSet, and_assoc]

theorem takes_iff (w : Walker) (ext : String) : w.takes ext = true ↔
    (∀ e ∈ w.options.extensions, e = "") ∨
      ∃ e ∈ w.options.extensions, e ≠ "" ∧ Case.lower e = ext := by
  have hempty : nameSet w.options.extensions = [] ↔ ∀ e ∈ w.options.extensions, e = "" := by
    simp [nameSet]
  rw [takes, Bool.or_eq_true, List.isEmpty_iff, List.contains_iff_mem, mem_nameSet, hempty]

theorem fits_iff (w : Walker) (size : Nat) : w.fits size = true ↔
    w.options.maxBytes ≤ 0 ∨ (size : Int) ≤ w.options.maxBytes := by
  simp [fits]

theorem skipsDir_eq_false_iff (w : Walker) (name : String) : w.skipsDir name = false ↔
    ¬ (∃ s ∈ skipNames w.options, s ≠ "" ∧ Case.lower s = name) ∧
      (w.options.skipHidden = true → Find.startsWith name "." = false) := by
  rw [skipsDir, Bool.or_eq_false_iff, Bool.and_eq_false_imp, ← mem_nameSet, ← Bool.not_eq_true,
    List.contains_iff_mem]
  rfl

theorem ending_whole (w : Walker) {way : List String} (hne : way ≠ [])
    (hway : ∀ n ∈ way, Path.Proper n) :
    SourceFile.ending (w.whole ("/".intercalate way)) = SourceFile.ending ("/".intercalate way) := by
  obtain ⟨front, name, rfl⟩ : ∃ front name, way = front ++ [name] :=
    ⟨way.dropLast, way.getLast hne, (List.dropLast_append_getLast hne).symm⟩
  have hlast : ∀ rooted ps, Path.ext (Path.ofParts rooted (ps ++ (front ++ [name]))) =
      Path.ext name := by
    intro rooted ps
    rw [← List.append_assoc, Path.ext_ofParts_concat _ _ (hway name (by simp)).no_slash]
  have hrel : "/".intercalate (front ++ [name]) = Path.ofParts false ([] ++ (front ++ [name])) := by
    rw [List.nil_append, Path.ofParts_of_ne_nil hne, if_neg (by decide)]
  rw [SourceFile.ending, SourceFile.ending, whole, Path.join_names _ hne hway, hlast, hrel, hlast]

theorem pick?_eq_some_iff {way : List String} (hne : way ≠ []) (hway : ∀ n ∈ way, Path.Proper n)
    {content : Bytes} {modified : Int} {f : FoundFile} :
    (walker d root o).pick? [] (way, content, modified) = some f ↔
      Passes o (ignoreLines d root o)
        (fun name => ∃ s ∈ skipNames o, s ≠ "" ∧ Case.lower s = name) way content.length ∧
      f = told d root o way content modified := by
  have hrel : ∀ p, p ≠ [] → Path.ofParts false ([] ++ p) = "/".intercalate p := by
    intro p hp
    rw [List.nil_append, Path.ofParts_of_ne_nil hp, if_neg (by decide)]
  have hending := ending_whole (walker d root o) hne hway
  have hclear : (walker d root o).clear [] way = true ↔
      (∀ p, p ≠ [] → p <+: way → Ignore.ignores (ignoreLines d root o) ("/".intercalate p) = false ∧
        Glob.matchesAny o.exclude ("/".intercalate p) = false) ∧
      ∀ before name rest, way = before ++ name :: rest → rest ≠ [] →
        ¬ (∃ s ∈ skipNames o, s ≠ "" ∧ Case.lower s = name) ∧
          (o.skipHidden = true → Find.startsWith name "." = false) := by
    rw [clear_iff]
    refine and_congr (forall_congr' fun p => forall_congr' fun hp => ?_) ?_
    · rw [hrel p hp, leavesOut, Bool.or_eq_false_iff]
      rfl
    · simp only [skipsDir_eq_false_iff]
      rfl
  have hhit : (walker d root o).hit? ("/".intercalate way) (.file content modified) =
      if (walker d root o).takes (SourceFile.ending ("/".intercalate way)) &&
        (walker d root o).fits content.length then some (told d root o way content modified)
      else none := by
    rw [hit?, hending]
    rfl
  rw [pick?, hrel way hne]
  dsimp only
  rw [hhit]
  constructor
  · intro h
    split_ifs at h with hway hcounts
    rw [Bool.and_eq_true, takes_iff, fits_iff] at hcounts
    obtain ⟨hshown, hentered⟩ := hclear.mp hway
    exact ⟨⟨hcounts.1, hcounts.2, hshown, hentered⟩, (Option.some.inj h).symm⟩
  · rintro ⟨hpasses, rfl⟩
    rw [if_pos (hclear.mpr ⟨hpasses.shown, hpasses.entered⟩), if_pos]
    rw [Bool.and_eq_true, takes_iff, fits_iff]
    exact ⟨hpasses.ending, hpasses.size⟩

theorem collect_eq (hroot : d.find false (d.abs root) = .ok (.dir es))
    (hnamed : (Entry.dir es).Named) (hlinks : (walker d root o).Linkless (.dir es)) :
    collect d root o =
      Order.sortBy (·.rel) ((Entry.dir es).files.filterMap ((walker d root o).pick? [])) := by
  have hwalk : (walker d root o).filesIn (Path.ofParts false []) es = _ :=
    filesIn_eq (walker d root o) es (by simp) fun x hx =>
      ⟨hnamed.proper hx, hnamed.child hx, hlinks.child hnamed.nodup hx⟩
  rw [Entry.files, ← hwalk]
  unfold collect
  dsimp only
  rw [hroot]
  rfl

/-- Paths of files tell the ways that lead to them. -/
theorem intercalate_inj {way way' : List String} (hne : way ≠ []) (hne' : way' ≠ [])
    (hway : ∀ n ∈ way, Path.Proper n) (hway' : ∀ n ∈ way', Path.Proper n)
    (h : "/".intercalate way = "/".intercalate way') : way = way' := by
  have hparts := congrArg Path.parts h
  rwa [Path.parts_intercalate hne fun n hn => (hway n hn).no_slash,
    Path.parts_intercalate hne' fun n hn => (hway' n hn).no_slash] at hparts

/-- A test that skips the same names on a way has the same answer. -/
theorem Passes.congr {lines : List Ignore.Line} {skips skips' : String → Prop} {way : List String}
    {size : Nat} (h : Passes o lines skips way size) (hskips : ∀ n ∈ way, skips' n → skips n) :
    Passes o lines skips' way size where
  ending := h.ending
  size := h.size
  shown := h.shown
  entered front name rest hway hrest :=
    ⟨fun hname => (h.entered front name rest hway hrest).1 (hskips name (by simp [hway]) hname),
      (h.entered front name rest hway hrest).2⟩

/-- The ways to the files of a tree. -/
theorem ways_of_mem_files (hnamed : (Entry.dir es).Named) {x : List String × Bytes × Int}
    (hx : x ∈ (Entry.dir es).files) : x.1 ≠ [] ∧ ∀ n ∈ x.1, Path.Proper n := by
  obtain ⟨way, content, modified⟩ := x
  have hget := (Entry.mem_files hnamed).mp hx
  refine ⟨?_, Entry.proper_of_get? hnamed hget⟩
  rintro rfl
  cases hget

/-- No two files that are found have the same path. -/
theorem pairwise_rel_ne (hroot : d.find false (d.abs root) = .ok (.dir es))
    (hnamed : (Entry.dir es).Named) (hlinks : (walker d root o).Linkless (.dir es)) :
    (collect d root o).Pairwise fun f g => f.rel ≠ g.rel := by
  rw [collect_eq hroot hnamed hlinks, (Order.sortBy_perm _ _).pairwise_iff fun hne => hne.symm]
  refine List.Pairwise.filterMap _ ?_
    ((List.pairwise_map.mp (Entry.nodup_files _ hnamed)).imp_of_mem fun hx hy hne =>
      And.intro (ways_of_mem_files hnamed hx) (And.intro (ways_of_mem_files hnamed hy) hne))
  rintro ⟨way, content, modified⟩ ⟨way', content', modified'⟩ ⟨⟨hne, hway⟩, ⟨hne', hway'⟩, hdiff⟩
    f hf g hg heq
  obtain ⟨-, rfl⟩ := (pick?_eq_some_iff hne hway).mp hf
  obtain ⟨-, rfl⟩ := (pick?_eq_some_iff hne' hway').mp hg
  exact hdiff (intercalate_inj hne hne' hway hway' heq)

/-- Paths increase strictly, so each file is found once. -/
theorem pairwise_rel_lt (hroot : d.find false (d.abs root) = .ok (.dir es))
    (hnamed : (Entry.dir es).Named) (hlinks : (walker d root o).Linkless (.dir es)) :
    (collect d root o).Pairwise fun f g => f.rel < g.rel := by
  have hsorted : (collect d root o).Pairwise fun f g => Order.le f.rel g.rel = true := by
    rw [collect_eq hroot hnamed hlinks]
    exact Order.pairwise_sortBy _ _
  refine (hsorted.and (pairwise_rel_ne hroot hnamed hlinks)).imp fun ⟨hle, hne⟩ => ?_
  rw [Order.le, decide_eq_true_eq] at hle
  exact String.not_le.mp fun hge => hne (String.le_antisymm hle hge)

/-- Names to skip are compared in small letters. -/
theorem mem_iff_wanted (hroot : d.find false (d.abs root) = .ok (.dir es))
    (hnamed : (Entry.dir es).Named) (hlinks : (walker d root o).Linkless (.dir es)) (f : FoundFile) :
    f ∈ collect d root o ↔ Wanted d root o (.dir es)
      (fun name => ∃ s ∈ skipNames o, s ≠ "" ∧ Case.lower s = name) f := by
  rw [collect_eq hroot hnamed hlinks, (Order.sortBy_perm _ _).mem_iff, List.mem_filterMap]
  constructor
  · rintro ⟨⟨way, content, modified⟩, hx, hf⟩
    obtain ⟨hne, hproper⟩ := ways_of_mem_files hnamed hx
    exact ⟨way, content, modified, (Entry.mem_files hnamed).mp hx,
      (pick?_eq_some_iff hne hproper).mp hf⟩
  · rintro ⟨way, content, modified, hget, hpasses⟩
    have hx := (Entry.mem_files hnamed).mpr hget
    obtain ⟨hne, hproper⟩ := ways_of_mem_files hnamed hx
    exact ⟨_, hx, (pick?_eq_some_iff hne hproper).mpr hpasses⟩

/-- Names that are listed in small letters are those that are compared. -/
theorem wanted_iff_of_lower (hnamed : (Entry.dir es).Named) {o : WalkOptions}
    (hlower : ∀ s ∈ skipNames o, Case.lower s = s) (f : FoundFile) :
    Wanted d root o (.dir es) (fun name => ∃ s ∈ skipNames o, s ≠ "" ∧ Case.lower s = name) f ↔
      Wanted d root o (.dir es) (· ∈ skipNames o) f := by
  refine exists_congr fun way => exists_congr fun content => exists_congr fun modified =>
    and_congr_right fun hget => and_congr_left fun _ => ?_
  have hproper := Entry.proper_of_get? hnamed hget
  refine ⟨fun h => h.congr fun n hn hlisted => ⟨n, hlisted, (hproper n hn).ne_empty,
    hlower n hlisted⟩, fun h => h.congr ?_⟩
  rintro n - ⟨s, hs, -, rfl⟩
  rwa [hlower s hs]

/-- **Which files are found.**  From a directory whose tree has no links, and for all options, the
files that are found are exactly those that pass, and their paths increase strictly, so each is found
once.  Names to skip are turned into small letters and then compared with the names of directories as
they are; so a directory is skipped for a listed name when the listed names are in small letters. -/
theorem mem_collect (hroot : d.find false (d.abs root) = .ok (.dir es))
    (hplain : (Entry.dir es).Plain) (o : WalkOptions) :
    (collect d root o).Pairwise (fun f g => f.rel < g.rel) ∧
      (∀ f, f ∈ collect d root o ↔ Wanted d root o (.dir es)
        (fun name => ∃ s ∈ skipNames o, s ≠ "" ∧ Case.lower s = name) f) ∧
      ((∀ s ∈ skipNames o, Case.lower s = s) →
        ∀ f, f ∈ collect d root o ↔ Wanted d root o (.dir es) (· ∈ skipNames o) f) :=
  have hlinks : (walker d root o).Linkless (.dir es) := Or.inr hplain.noLink
  ⟨pairwise_rel_lt hroot hplain.named hlinks, mem_iff_wanted hroot hplain.named hlinks,
    fun hlower f => (mem_iff_wanted hroot hplain.named hlinks f).trans
      (wanted_iff_of_lower hplain.named hlower f)⟩

/-- A file is found although another directory beside it is excluded. -/
theorem mem_collect_smallTree :
    let es : List (String × Entry) := [("src", .dir [("gen", .dir [("e.wxs", .file [60] 0)]),
      ("d.WXS", .file [60, 62] 0)]), ("a.txt", .file [60] 0)]
    let d : Disk := { root := .dir [("p", .dir es)] }
    let o : WalkOptions := { extensions := [".wxs"], exclude := ["src/gen"], hash := false }
    told d "/p" o ["src", "d.WXS"] [60, 62] 0 ∈ collect d "/p" o := by
  intro es d o
  have hgen : (Entry.dir [("e.wxs", .file [60] 0)]).Plain :=
    Entry.plain_dir (by decide) (by simp [Entry.plain_file]; decide)
  have hsrc : (Entry.dir [("gen", .dir [("e.wxs", .file [60] 0)]), ("d.WXS", .file [60, 62] 0)]).Plain :=
    Entry.plain_dir (by decide) (by simp [Entry.plain_file, hgen]; decide)
  have hplain : (Entry.dir es).Plain :=
    Entry.plain_dir (by decide) (by simp [es, Entry.plain_file, hsrc]; decide)
  have hroot : d.find false (d.abs "/p") = .ok (.dir es) := by
    have habs : d.abs "/p" = "/p" := by decide +kernel
    have hparts : Path.parts (d.fromCwd "/p") = ["", "p"] := by decide +kernel
    rw [habs, Disk.find, Disk.way, if_neg (by decide), hparts]
    rfl
  refine ((mem_collect hroot hplain o).2.2 (by decide) _).mpr
    ⟨["src", "d.WXS"], [60, 62], 0, rfl, ?_, rfl⟩
  refine ⟨Or.inr ⟨".wxs", by decide +kernel⟩, Or.inl (by decide), ?_, ?_⟩
  · intro front hne hfront
    have hall : ∀ front ∈ ["src", "d.WXS"].inits, front ≠ [] →
        Ignore.ignores [] ("/".intercalate front) = false ∧
          Glob.matchesAny ["src/gen"] ("/".intercalate front) = false := by decide +kernel
    exact hall front ((List.mem_inits _ _).mpr hfront) hne
  · intro front name rest hway hrest
    cases front with
    | nil =>
        obtain ⟨rfl, -⟩ := List.cons.inj hway
        exact ⟨by decide, fun hhidden => by cases hhidden⟩
    | cons n front =>
        -- only the file itself is left
        have hlen := congrArg List.length hway
        have hpos := List.length_pos_of_ne_nil hrest
        simp only [List.length_cons, List.length_append, List.length_nil] at hlen
        omega

end Main

end Walk

end InstallerLint
