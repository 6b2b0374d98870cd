import InstallerLint.Proofs.Diagnostic.Placed
import InstallerLint.Proofs.Walk
import InstallerLint.Watch

/-!
# What is watched and what is walked

A watcher judges a path by its text: seen from the root it must not lead outside, and no directory on
it may be skipped.  A walk goes down the tree.  Both take the same files (`isRelevant_iff_collected`),
with one exception.

**Two dots.**  The watcher takes every path that starts with two dots for a way out of the root.  So a
file whose first name below the root is one such as `..data` is found by a walk, but no change of it
matters.
-/

namespace InstallerLint

namespace Path

section Seen

variable {base path : String}

/-- What is left of a base that was taken off a target. -/
theorem dropCommon_suffix (base target : List String) : (dropCommon base target).1 <:+ base := by
  induction base generalizing target with
  | nil => cases target <;> exact List.suffix_refl _
  | cons b base ih =>
      cases target with
      | nil => exact List.suffix_refl _
      | cons t target =>
          rw [dropCommon]
          split_ifs with h
          · exact (ih target).trans (List.suffix_cons _ _)
          · exact List.suffix_refl _

/-- Nothing is left of a base exactly when the target goes on from it. -/
theorem dropCommon_eq_nil_iff (base target : List String) :
    (dropCommon base target).1 = [] ↔ base <+: target := by
  induction base generalizing target with
  | nil => cases target <;> simp [dropCommon]
  | cons b base ih =>
      cases target with
      | nil => simp [dropCommon]
      | cons t target =>
          rw [dropCommon, List.cons_prefix_cons]
          split_ifs with h
          · rw [ih]
            simp [h]
          · simp [h]

theorem Rooted.eq_ofParts (h : Rooted path) : path = ofParts true (cleanParts path) := by
  have hclean := h.clean
  rw [Path.clean, h.isAbs] at hclean
  exact hclean.symm

theorem Rooted.clean_parts (h : Rooted path) : Clean true (cleanParts path) :=
  h.isAbs ▸ clean_cleanParts path

/-- The parts of a path from the root are names. -/
theorem Rooted.proper (h : Rooted path) : ∀ n ∈ cleanParts path, Proper n := by
  obtain ⟨ups, names, hparts, -, hnames, hroot⟩ := h.clean_parts
  rw [hparts, hroot rfl]
  exact hnames

theorem Rooted.ne_dot (h : Rooted path) : path ≠ "." := by
  rintro rfl
  exact absurd h.isAbs (by decide)

/-- How a path from the root is reached from another one. -/
theorem relative?_rooted (hbase : Rooted base) (hpath : Rooted path) (hne : base ≠ path) :
    relative? base path =
      some ("/".intercalate
        ((dropCommon (cleanParts base) (cleanParts path)).1.map (fun _ => "..") ++
          (dropCommon (cleanParts base) (cleanParts path)).2)) := by
  have hup : ∀ part ∈ (dropCommon (cleanParts base) (cleanParts path)).1, part ≠ ".." :=
    fun part hpart => (hbase.proper part ((dropCommon_suffix _ _).subset hpart)).ne_up
  rw [relative?, hbase.clean, hpath.clean, if_neg hne, if_neg (by simp [hbase.isAbs, hpath.isAbs]),
    if_neg hpath.ne_dot, baseParts]
  dsimp only
  cases hdrop : dropCommon (cleanParts base) (cleanParts path) with
  | mk up down =>
      rw [hdrop] at hup
      cases up with
      | nil => rfl
      | cons u up =>
          have hu := hup u List.mem_cons_self
          split
          · next heq => exact absurd (List.cons.inj (Prod.mk.inj heq).1).1 hu
          · next heq =>
              obtain ⟨rfl, rfl⟩ := Prod.mk.inj heq
              rfl

theorem relative?_of_below (hbase : Rooted base) (hpath : Rooted path) {way : List String}
    (hway : way ≠ []) (h : cleanParts path = cleanParts base ++ way) :
    relative? base path = some ("/".intercalate way) := by
  have hne : base ≠ path := by
    rintro rfl
    exact hway (List.append_right_eq_self.mp h.symm)
  rw [relative?_rooted hbase hpath hne, h, dropCommon_append]
  rfl

/-- A path outside of the base is reached through the directory above. -/
theorem exists_relative?_of_outside (hbase : Rooted base) (hpath : Rooted path)
    (h : ¬ cleanParts base <+: cleanParts path) :
    ∃ rest, relative? base path = some ("/".intercalate (".." :: rest)) := by
  have hne : base ≠ path := by
    rintro rfl
    exact h (List.prefix_refl _)
  rw [relative?_rooted hbase hpath hne]
  rw [← dropCommon_eq_nil_iff] at h
  obtain ⟨u, up, hup⟩ := List.exists_cons_of_ne_nil h
  exact ⟨up.map (fun _ => "..") ++ (dropCommon (cleanParts base) (cleanParts path)).2, by rw [hup]; rfl⟩

end Seen

section Text

/-- Whether a path starts with two dots shows in its first name. -/
theorem startsWith_intercalate {name : String} (hname : Proper name) (rest : List String) :
    Find.startsWith ("/".intercalate (name :: rest)) ".." = Find.startsWith name ".." := by
  have hne : name.toList ≠ [] := fun h => hname.ne_empty (String.toList_eq_nil_iff.mp h)
  obtain ⟨c, cs, hcs⟩ := List.exists_cons_of_ne_nil hne
  have htail : ∃ tail, ("/".intercalate (name :: rest)).toList = name.toList ++ tail ∧
      tail.head? ≠ some '.' := by
    cases rest with
    | nil => exact ⟨[], by rw [String.intercalate_singleton, List.append_nil], by simp⟩
    | cons other rest =>
        refine ⟨'/' :: ("/".intercalate (other :: rest)).toList, ?_, by simp⟩
        rw [String.intercalate_cons_cons]
        simp [String.toList_append]
  obtain ⟨tail, htext, htail⟩ := htail
  rw [Find.startsWith, Find.startsWith, htext, hcs]
  cases cs with
  | nil =>
      cases tail with
      | nil => simp
      | cons t tail =>
          have ht : t ≠ '.' := by simpa using htail
          simp [List.isPrefixOf, ht.symm]
  | cons c' cs => rfl

theorem startsWith_up (rest : List String) :
    Find.startsWith ("/".intercalate (".." :: rest)) ".." = true := by
  rw [Find.startsWith, List.isPrefixOf_iff_prefix]
  cases rest with
  | nil => rw [String.intercalate_singleton]
  | cons other rest =>
      rw [String.intercalate_cons_cons, String.toList_append, String.toList_append,
        List.append_assoc]
      exact List.prefix_append _ _

/-- The directories on the way to a name. -/
theorem parts_dir {front : List String} {name : String} (hfront : ∀ n ∈ front, Proper n)
    (hname : Proper name) : parts (dir ("/".intercalate (front ++ [name]))) =
      if front = [] then ["."] else front := by
  have hparts : parts ("/".intercalate (front ++ [name])) = front ++ [name] :=
    parts_intercalate (by simp) fun n hn => by
      rcases List.mem_append.mp hn with hn | hn
      · exact (hfront n hn).no_slash
      · exact List.mem_singleton.mp hn ▸ hname.no_slash
  rw [dir, hparts, List.reverse_append, List.reverse_singleton, List.singleton_append]
  dsimp only
  rw [List.reverse_reverse]
  by_cases hnil : front = []
  · subst hnil
    decide
  · have htext : ofParts false front = "/".intercalate front := by
      rw [ofParts_of_ne_nil hnil, if_neg (by decide)]
    have hclean : Clean false front := clean_names hfront
    have hnonempty : "/".intercalate front ≠ "" := htext ▸ ofParts_ne_empty hclean
    have habs : isAbs ("/".intercalate front ++ "/") = false := by
      rw [isAbs_append hnonempty, ← htext, isAbs_ofParts hclean]
    have hslash : parts ("/".intercalate front ++ "/") = front ++ [""] := by
      rw [← String.append_empty (s := "/".intercalate front ++ "/"), parts_append, ← htext,
        parts_ofParts hclean hnil]
      rfl
    rw [if_neg hnil, if_neg (by simpa using hnil), Path.clean, cleanParts, habs, hslash,
      List.foldl_append, foldl_push_names hfront, List.append_nil,
      show [""].foldl (Path.push false) front.reverse = front.reverse from rfl, List.reverse_reverse,
      parts_ofParts hclean hnil]
    rfl

end Text

end Path

namespace Walk

variable {way : List String} {size : Nat}

theorem mem_dropLast_iff {name : String} :
    name ∈ way.dropLast ↔ ∃ front rest, way = front ++ name :: rest ∧ rest ≠ [] := by
  constructor
  · intro hmem
    obtain ⟨front, back, hback⟩ := List.append_of_mem hmem
    have hne : way ≠ [] := by
      rintro rfl
      cases hmem
    refine ⟨front, back ++ [way.getLast hne], ?_, by simp⟩
    rw [← List.cons_append, ← List.append_assoc, ← hback, List.dropLast_append_getLast]
  · rintro ⟨front, rest, rfl, hrest⟩
    rw [List.dropLast_append_of_ne_nil (List.cons_ne_nil _ _), List.dropLast_cons_of_ne_nil hrest]
    simp

/-- The selection of a walk when nothing but the endings of sources is asked for. -/
def sourceOptions (hash : Bool) : WalkOptions := { extensions := SourceFile.extensions, hash := hash }

/-- Which files an unrestricted walk takes. -/
theorem passes_sourceOptions_iff (hash : Bool) :
    Passes (sourceOptions hash) []
        (fun name => ∃ s ∈ skipNames (sourceOptions hash), s ≠ "" ∧ Case.lower s = name) way size ↔
      SourceFile.ending ("/".intercalate way) ∈ SourceFile.extensions ∧
        ∀ name ∈ way.dropLast, name ∉ SourceFile.skippedDirs := by
  have hlowerEnding : ∀ e ∈ SourceFile.extensions, e ≠ "" ∧ Case.lower e = e := by decide
  have hlowerName : ∀ s ∈ SourceFile.skippedDirs, s ≠ "" ∧ Case.lower s = s := by decide
  constructor
  · intro h
    refine ⟨?_, fun name hname hskipped => ?_⟩
    · rcases h.ending with hempty | ⟨e, he, -, hending⟩
      · have hwxs : ".wxs" ∈ SourceFile.extensions := by decide
        exact absurd (hempty ".wxs" hwxs) (by decide)
      · rw [← hending, (hlowerEnding e he).2]
        exact he
    · obtain ⟨front, rest, hway, hrest⟩ := mem_dropLast_iff.mp hname
      exact (h.entered front name rest hway hrest).1 ⟨name, hskipped, hlowerName name hskipped⟩
  · rintro ⟨hending, hskipped⟩
    refine ⟨Or.inr ⟨_, hending, hlowerEnding _ hending⟩, Or.inl (Int.le_refl 0),
      fun front _ _ => ⟨rfl, rfl⟩, fun front name rest hway hrest => ⟨?_, fun h => by cases h⟩⟩
    rintro ⟨s, hs, -, hlower⟩
    rw [(hlowerName s hs).2] at hlower
    exact hskipped name (mem_dropLast_iff.mpr ⟨front, rest, hway, hrest⟩) (hlower ▸ hs)

/-- A walk finds the file at a path below the root exactly when the file passes. -/
theorem exists_mem_collect_iff {d : Disk} {root path : String} {es : List (String × Entry)}
    {content : Bytes} {modified : Int} (hash : Bool) (hroot : Path.Rooted root)
    (hpath : Path.Rooted path) (hparts : Path.cleanParts path = Path.cleanParts root ++ way)
    (hdir : d.find false root = .ok (.dir es)) (hnamed : (Entry.dir es).Named)
    (hfile : (Entry.dir es).get? way = some (.file content modified)) :
    (∃ f ∈ collect d root (sourceOptions hash), f.path = path) ↔
      SourceFile.ending ("/".intercalate way) ∈ SourceFile.extensions ∧
        ∀ name ∈ way.dropLast, name ∉ SourceFile.skippedDirs := by
  have habs : d.abs root = root := by
    rw [Disk.abs, Path.resolve, if_pos hroot.isAbs, hroot.clean]
  have hfind : d.find false (d.abs root) = .ok (.dir es) := by rw [habs, hdir]
  have hlinks : (walker d root (sourceOptions hash)).Linkless (.dir es) := Or.inl rfl
  have hplace : ∀ {way : List String}, way ≠ [] → (∀ n ∈ way, Path.Proper n) →
      Path.join [d.abs root, "/".intercalate way] =
        Path.ofParts true (Path.cleanParts root ++ way) := fun hne hproper => by
    rw [habs, Path.join_names root hne hproper, hroot.isAbs]
  have hne : ∀ {way : List String} {content : Bytes} {modified : Int},
      (Entry.dir es).get? way = some (.file content modified) → way ≠ [] := by
    rintro way content modified hget rfl
    cases hget
  rw [← @passes_sourceOptions_iff way content.length hash]
  constructor
  · rintro ⟨f, hf, hat⟩
    obtain ⟨way', content', modified', hget, hpasses, rfl⟩ :=
      (mem_iff_wanted hfind hnamed hlinks f).mp hf
    have hproper := Entry.proper_of_get? hnamed hget
    have hcleanParts := congrArg Path.cleanParts hat
    rw [told, hplace (hne hget) hproper,
      Path.cleanParts_ofParts (hroot.clean_parts.append hproper), hparts] at hcleanParts
    obtain rfl := List.append_cancel_left hcleanParts
    obtain ⟨rfl, rfl⟩ := Entry.file.inj (Option.some.inj (hget.symm.trans hfile))
    exact hpasses
  · intro hpasses
    refine ⟨_, (mem_iff_wanted hfind hnamed hlinks _).mpr
      ⟨way, content, modified, hfile, hpasses, rfl⟩, ?_⟩
    rw [told, hplace (hne hfile) (Entry.proper_of_get? hnamed hfile), ← hparts]
    exact hpath.eq_ofParts.symm

end Walk

namespace Watcher

variable {root path name : String} {rest : List String}

/-- Whether a skipped directory is on the way to a file. -/
theorem any_skipped_iff {way : List String} (hne : way ≠ []) (hproper : ∀ n ∈ way, Path.Proper n) :
    (Path.parts (Path.dir ("/".intercalate way))).any SourceFile.skippedDirs.contains = false ↔
      ∀ n ∈ way.dropLast, n ∉ SourceFile.skippedDirs := by
  obtain ⟨front, last, rfl⟩ : ∃ front last, way = front ++ [last] :=
    ⟨_, _, (List.dropLast_append_getLast hne).symm⟩
  rw [Path.parts_dir (fun n hn => hproper n (by simp [hn])) (hproper last (by simp)),
    List.dropLast_concat, List.any_eq_false]
  split_ifs with hfront
  · have hdot : "." ∉ SourceFile.skippedDirs := by decide
    subst hfront
    simp [hdot]
  · simp

/-- The ending of a path shows below the root. -/
theorem ending_below (hpath : Path.Rooted path) {way : List String} (hne : way ≠ [])
    (hparts : Path.cleanParts path = Path.cleanParts root ++ way) :
    SourceFile.ending path = SourceFile.ending ("/".intercalate way) := by
  obtain ⟨front, last, rfl⟩ : ∃ front last, way = front ++ [last] :=
    ⟨_, _, (List.dropLast_append_getLast hne).symm⟩
  have hslash : '/' ∉ last.toList := (hpath.proper last (by rw [hparts]; simp)).no_slash
  have hrel : "/".intercalate (front ++ [last]) = Path.ofParts false (front ++ [last]) := by
    rw [Path.ofParts_of_ne_nil hne, if_neg Bool.false_ne_true]
  have hlast : Path.ext path = Path.ext last := by
    rw [hpath.eq_ofParts, hparts, ← List.append_assoc, Path.ext_ofParts_concat _ _ hslash]
  rw [SourceFile.ending, SourceFile.ending, hlast, hrel, Path.ext_ofParts_concat _ _ hslash]

/-- What the watcher asks of a path below the root. -/
theorem isRelevant_below_iff (hroot : Path.Rooted root) (hpath : Path.Rooted path)
    (hparts : Path.cleanParts path = Path.cleanParts root ++ name :: rest) :
    ({ root := root } : Watcher).isRelevant path = true ↔
      (SourceFile.ending ("/".intercalate (name :: rest)) ∈ SourceFile.extensions ∧
        ∀ n ∈ (name :: rest).dropLast, n ∉ SourceFile.skippedDirs) ∧
      Find.startsWith name ".." = false := by
  have hne : name :: rest ≠ [] := List.cons_ne_nil _ _
  have hproper : ∀ n ∈ name :: rest, Path.Proper n := fun n hn =>
    hpath.proper n (by rw [hparts]; exact List.mem_append_right _ hn)
  have hanswer : ({ root := root } : Watcher).isRelevant path =
      (SourceFile.extensions.contains (SourceFile.ending ("/".intercalate (name :: rest))) &&
        (!Find.startsWith name ".." &&
          !(Path.parts (Path.dir ("/".intercalate (name :: rest)))).any
            SourceFile.skippedDirs.contains)) := by
    rw [isRelevant, Path.relative?_of_below hroot hpath hne hparts, SourceFile.hasExtension,
      ending_below hpath hne hparts]
    dsimp only
    rw [Path.startsWith_intercalate (hproper name List.mem_cons_self)]
  rw [hanswer, Bool.and_eq_true, Bool.and_eq_true, Bool.not_eq_true', Bool.not_eq_true',
    any_skipped_iff hne hproper, List.contains_iff_mem]
  exact ⟨fun ⟨hending, hdots, hskipped⟩ => ⟨⟨hending, hskipped⟩, hdots⟩,
    fun ⟨⟨hending, hskipped⟩, hdots⟩ => ⟨hending, hdots, hskipped⟩⟩

/-- No path outside of the root matters. -/
theorem isRelevant_outside (hroot : Path.Rooted root) (hpath : Path.Rooted path)
    (h : ¬ Path.cleanParts root <+: Path.cleanParts path) :
    ({ root := root } : Watcher).isRelevant path = false := by
  obtain ⟨up, hup⟩ := Path.exists_relative?_of_outside hroot hpath h
  rw [isRelevant, hup]
  dsimp only
  rw [Path.startsWith_up]
  simp

/-- **Watching and walking agree.**  A file below the root matters exactly when a walk of the root finds
it, unless its first name below the root starts with two dots: then it does not matter.  Outside of
the root nothing matters. -/
theorem isRelevant_iff_collected {d : Disk} {es : List (String × Entry)} (hash : Bool)
    (hroot : Path.Rooted root) (hdir : d.find false root = .ok (.dir es))
    (hnamed : (Entry.dir es).Named) :
    (∀ path name rest content modified, Path.Rooted path →
      Path.cleanParts path = Path.cleanParts root ++ name :: rest →
      (Entry.dir es).get? (name :: rest) = some (.file content modified) →
      (({ root := root } : Watcher).isRelevant path = true ↔
        (∃ f ∈ Walk.collect d root { extensions := SourceFile.extensions, hash := hash },
          f.path = path) ∧ Find.startsWith name ".." = false)) ∧
    ∀ path, Path.Rooted path → ¬ Path.cleanParts root <+: Path.cleanParts path →
      ({ root := root } : Watcher).isRelevant path = false := by
  refine ⟨fun path name rest content modified hpath hparts hfile => ?_,
    fun path hpath h => isRelevant_outside hroot hpath h⟩
  rw [isRelevant_below_iff hroot hpath hparts]
  exact and_congr_left fun _ =>
    (Walk.exists_mem_collect_iff hash hroot hpath hparts hdir hnamed hfile).symm

/-- Two sources beside each other, of which a walk finds both. -/
theorem isRelevant_iff_collected_dots :
    let es : List (String × Entry) := [("..a.wxs", .file [60] 0), ("b.WXS", .file [60] 0),
      ("up", .link "..")]
    let d : Disk := { root := .dir [("p", .dir es)] }
    (∀ path ∈ ["/p/..a.wxs", "/p/b.WXS"],
      ∃ f ∈ Walk.collect d "/p" { extensions := SourceFile.extensions, hash := false },
        f.path = path) ∧
    ({ root := "/p" } : Watcher).isRelevant "/p/..a.wxs" = false ∧
    ({ root := "/p" } : Watcher).isRelevant "/p/b.WXS" = true ∧
    ({ root := "/p" } : Watcher).isRelevant "/q/b.wxs" = false := by
  intro es d
  have hroot : Path.Rooted "/p" := ⟨by decide, by decide⟩
  have hdots : Path.Rooted "/p/..a.wxs" := ⟨by decide, by decide⟩
  have hplain : Path.Rooted "/p/b.WXS" := ⟨by decide, by decide⟩
  have houtside : Path.Rooted "/q/b.wxs" := ⟨by decide, by decide⟩
  have hdir : d.find false "/p" = .ok (.dir es) := by
    have hparts : Path.parts (d.fromCwd "/p") = ["", "p"] := by decide +kernel
    rw [Disk.find, Disk.way, if_neg (by decide), hparts]
    rfl
  have hnamed : (Entry.dir es).Named :=
    Entry.named_dir (by decide) (by simp [es, Entry.named_file, Entry.named_link]; decide)
  obtain ⟨hagree, hnone⟩ := isRelevant_iff_collected false hroot hdir hnamed
  have hrelevant : ({ root := "/p" } : Watcher).isRelevant "/p/b.WXS" = true := by decide +kernel
  refine ⟨?_, ?_, hrelevant, hnone _ houtside (by decide +kernel)⟩
  · rw [List.forall_mem_cons, List.forall_mem_singleton]
    refine ⟨?_, ((hagree _ "b.WXS" [] _ _ hplain (by decide +kernel) rfl).mp hrelevant).1⟩
    have hparts : Path.cleanParts "/p/..a.wxs" = Path.cleanParts "/p" ++ ["..a.wxs"] := by
      decide +kernel
    exact (Walk.exists_mem_collect_iff false hroot hdots hparts hdir hnamed rfl).mpr
      (by decide +kernel)
  · rw [← Bool.not_eq_true, hagree _ "..a.wxs" [] _ _ hdots (by decide +kernel) rfl]
    exact fun h => absurd h.2 (by decide)

end Watcher

end InstallerLint
