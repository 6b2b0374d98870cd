import InstallerLint.Baseline
import InstallerLint.Proofs.Diagnostic.Encodable
import InstallerLint.Proofs.Diagnostic.Listing
import InstallerLint.Proofs.Disk.Directory
import InstallerLint.Proofs.Text.Fields
import InstallerLint.Rule.Validate

/-!
# What a baseline accepts

**Saving.**  A baseline whose lines have 64 bits is read from its saved form (`ofJson_toJson`), and
from the file it was written to (`load_of_save`).

**Recognising.**  A fingerprint digests one text: the rule, the file, the region of lines and the
start of the message with bars between.  The id of a rule has no bar, so the text tells the rule; what
stands behind it is the `place` of the finding.  Findings that are `Alike` have one place
(`place_eq_of_alike`).  The converse needs that the files have no bar (`alike_of_place_eq`): a bar in
a file moves the borders between the parts, so findings that are not alike can share their place.

**The main result** is `filter_saved`: a saved baseline takes away what has the rule and the place of
a recorded finding, and nothing else.
-/

namespace InstallerLint

open Json

namespace BaselineEntry

/-- The fields of the saved form. -/
def slots (e : BaselineEntry) : List (String × Option Json) := [
  ("fingerprint", some (.str e.fingerprint)), ("rule_id", some (.str e.ruleId)),
  ("file", some (.str e.file)), ("line", some (.int e.line)),
  ("message_hash", some (.str e.messageHash))]

theorem toJson_eq (e : BaselineEntry) : e.toJson = .obj (filled e.slots) := rfl

theorem apart_slots (e : BaselineEntry) : (e.slots.map Prod.fst).Pairwise Apart := by
  show ["fingerprint", "rule_id", "file", "line", "message_hash"].Pairwise Apart
  exact apart_of_nodup (by decide)

theorem exact_toJson (e : BaselineEntry) : Exact e.toJson :=
  ⟨trivial, trivial, trivial, ⟨e.line, rfl⟩, trivial, trivial⟩

theorem ofJson_toJson {e : BaselineEntry} (h : Json.Fits e.line) : ofJson e.toJson = some e := by
  have hap := e.apart_slots
  rw [toJson_eq, ofJson, guard_record rfl]
  simp only [textField_filled hap "fingerprint" (s := e.fingerprint) (by simp [slots]),
    textField_filled hap "rule_id" (s := e.ruleId) (by simp [slots]),
    textField_filled hap "file" (s := e.file) (by simp [slots]),
    intField_filled hap "line" (by simp [slots]) h,
    textField_filled hap "message_hash" (s := e.messageHash) (by simp [slots])]
  rfl

end BaselineEntry

namespace Baseline

section Saved

variable {b : Baseline}

/-- The fields of the saved form. -/
def slots (b : Baseline) : List (String × Option Json) := [
  ("version", some (.int b.version)), ("created", some (.str b.created)),
  ("tool_version", some (.str b.toolVersion)), ("description", optional b.description),
  ("issues", some (if b.issues.isEmpty then .null else .arr (b.issues.map (·.toJson))))]

theorem toJson_eq (b : Baseline) : b.toJson = .obj (filled b.slots) := by
  rw [toJson, optStr_eq, slots, filled_cons, filled_cons, filled_cons, filled_cons, filled_cons]
  simp [filled]

theorem apart_slots (b : Baseline) : (b.slots.map Prod.fst).Pairwise Apart := by
  show ["version", "created", "tool_version", "description", "issues"].Pairwise Apart
  exact apart_of_nodup (by decide)

theorem exact_toJson (b : Baseline) : Exact b.toJson := by
  rw [toJson_eq]
  refine exact_filled fun s hs v hv => ?_
  simp only [slots, List.mem_cons, List.not_mem_nil, or_false] at hs
  rcases hs with rfl | rfl | rfl | rfl | rfl
  · cases hv
    exact ⟨b.version, rfl⟩
  · cases hv
    trivial
  · cases hv
    trivial
  · exact exact_of_optional hv
  · cases hv
    split_ifs
    · trivial
    · exact exact_arr_map fun e _ => e.exact_toJson

/-- All numbers have 64 bits. -/
structure Fits (b : Baseline) : Prop where
  version : Json.Fits b.version
  lines : ∀ e ∈ b.issues, Json.Fits e.line

theorem issues_of_toJson (h : b.Fits) :
    b.toJson.listField "issues" BaselineEntry.ofJson = some b.issues := by
  have hslot : ("issues", some (if b.issues.isEmpty then .null else
      .arr (b.issues.map (·.toJson)))) ∈ b.slots := by simp [slots]
  have hfield := field?_filled b.apart_slots hslot
  rw [toJson_eq, listField, hfield]
  cases hissues : b.issues with
  | nil => rfl
  | cons e l =>
      have hread : (b.issues.map BaselineEntry.toJson).mapM BaselineEntry.ofJson = some b.issues :=
        mapM_map_eq fun e he => BaselineEntry.ofJson_toJson (h.lines e he)
      rw [hissues] at hread
      exact hread

theorem ofJson_toJson (h : b.Fits) : ofJson b.toJson = some b := by
  have hap := b.apart_slots
  have hissues := issues_of_toJson h
  rw [toJson_eq] at hissues ⊢
  rw [ofJson, guard_record rfl]
  simp only [intField_filled hap "version" (by simp [slots]) h.version,
    textField_filled hap "created" (s := b.created) (by simp [slots]),
    textField_filled hap "tool_version" (s := b.toolVersion) (by simp [slots]),
    textField_filled_optional hap "description" (s := b.description) (by simp [slots]), hissues]
  rfl

/-- A written baseline is read back. -/
theorem parse_document (path : String) (h : b.Fits) (hversion : b.version ≤ formatVersion) :
    parse path (Bytes.ofString (Json.document b.toJson)) = .ok b := by
  rw [parse, parseBytes_document b.exact_toJson]
  dsimp only
  rw [ofJson_toJson h]
  exact if_neg (by omega)

/-- A baseline that was saved in a directory that is there is loaded as it was. -/
theorem load_of_save {path : String} {d d' : Disk} {v : List String}
    (hpath : Path.join [Path.dir path, Path.base path] = path)
    (hname : Path.Proper (Path.base path)) (hseat : d.Seated (Path.dir path) v)
    (hfiles : d.OnlyFiles v fun n => DiskM.Temporary n ∨ n = Path.base path)
    (h : b.Fits) (hversion : b.version ≤ formatVersion) (hsave : b.save path d = .ok () d') :
    load d' path = .ok b := by
  have hends := DiskM.ends_writeWhole (Bytes.ofString (Json.document b.toJson)) hseat hname hfiles
  obtain ⟨-, -, hread⟩ := hends.of_ok hsave
  rw [hpath] at hread
  rw [load, hread]
  exact parse_document path h hversion

end Saved

end Baseline

namespace Diagnostic

section Text

/-- Everything that a fingerprint depends on besides the rule, as one text. -/
def place (d : Diagnostic) (base : String) : String :=
  relativeFile d.location.file base ++ "|" ++ toString (d.location.line.tdiv lineRegion) ++ "|"
    ++ Lines.takeText d.message messageStart

/-- Two findings have the same rule, file, region of lines and start of the message. -/
structure Alike (base : String) (x y : Diagnostic) : Prop where
  rule : x.ruleId = y.ruleId
  file : relativeFile x.location.file base = relativeFile y.location.file base
  region : x.location.line.tdiv lineRegion = y.location.line.tdiv lineRegion
  start : x.message.toList.take messageStart = y.message.toList.take messageStart

variable {base : String} {x y : Diagnostic}

theorem toList_fingerprintText (d : Diagnostic) (base : String) :
    (d.fingerprintText base).toList = d.ruleId.toList ++ '|' :: (d.place base).toList := by
  simp [fingerprintText, place, String.toList_append]

theorem toList_place (d : Diagnostic) (base : String) :
    (d.place base).toList = (relativeFile d.location.file base).toList ++
      '|' :: ((toString (d.location.line.tdiv lineRegion)).toList ++
        '|' :: d.message.toList.take messageStart) := by
  simp [place, Lines.takeText, String.toList_append]

/-- What joined words hold, besides what stands between them. -/
theorem mem_of_mem_intercalate {c sep : Char} {words : List (List Char)}
    (h : c ∈ [sep].intercalate words) : c = sep ∨ ∃ w ∈ words, c ∈ w := by
  induction words with
  | nil => cases h
  | cons w words ih =>
      cases words with
      | nil => exact Or.inr ⟨w, List.mem_cons_self, by simpa using h⟩
      | cons w' words =>
          rw [List.intercalate_cons_cons, List.append_assoc, List.mem_append,
            List.singleton_append, List.mem_cons] at h
          rcases h with h | rfl | h
          · exact Or.inr ⟨w, List.mem_cons_self, h⟩
          · exact Or.inl rfl
          · exact (ih h).imp_right fun ⟨u, hu, hc⟩ => ⟨u, List.mem_cons_of_mem _ hu, hc⟩

theorem bar_notMem_of_isId {id : String} (h : RuleSpec.isId id = true) : '|' ∉ id.toList := by
  intro hmem
  unfold RuleSpec.isId at h
  rw [Bool.and_eq_true, List.all_eq_true] at h
  have hjoin : ['-'].intercalate (id.toList.splitOn '-') = id.toList := List.intercalate_splitOn '-'
  rw [← hjoin] at hmem
  rcases mem_of_mem_intercalate hmem with hbar | ⟨w, hw, hc⟩
  · exact absurd hbar (by decide)
  · have hword := h.2 w hw
    rw [RuleSpec.isWord, Bool.and_eq_true, List.all_eq_true] at hword
    exact absurd (hword.2 _ hc) (by decide)

theorem bar_notMem_toString (n : Int) : '|' ∉ (toString n).toList :=
  Fields.notMem_toString (by decide) (by decide) n

/-- The text of a fingerprint tells the rule and the place. -/
theorem fingerprintText_eq_iff (hx : RuleSpec.isId x.ruleId = true)
    (hy : RuleSpec.isId y.ruleId = true) :
    x.fingerprintText base = y.fingerprintText base ↔
      x.ruleId = y.ruleId ∧ x.place base = y.place base := by
  rw [← String.toList_inj, toList_fingerprintText, toList_fingerprintText,
    Fields.append_cons_inj (bar_notMem_of_isId hx) (bar_notMem_of_isId hy), String.toList_inj,
    String.toList_inj]

/-- Findings alike have the same place. -/
theorem place_eq_of_alike (h : x.Alike base y) : x.place base = y.place base := by
  rw [← String.toList_inj, toList_place, toList_place, h.file, h.region, h.start]

/-- Without bars in the files the place tells them apart from the region and the message. -/
theorem alike_of_place_eq (hrule : x.ruleId = y.ruleId)
    (hx : '|' ∉ (relativeFile x.location.file base).toList)
    (hy : '|' ∉ (relativeFile y.location.file base).toList)
    (h : x.place base = y.place base) : x.Alike base y := by
  rw [← String.toList_inj, toList_place, toList_place, Fields.append_cons_inj hx hy,
    Fields.append_cons_inj (bar_notMem_toString _) (bar_notMem_toString _)] at h
  obtain ⟨hfile, hregion, hstart⟩ := h
  refine ⟨hrule, String.toList_inj.mp hfile, ?_, hstart⟩
  exact Fields.toString_injective (String.toList_inj.mp hregion)

/-- Two findings of one rule in two files and two regions that have one place. -/
example :
    let finding (file message : String) (line : Int) : Diagnostic :=
      ⟨"SEC-001", .high, "", message, ⟨file, line, 1, line, 2⟩, "", none, [], [], 0, ""⟩
    (finding "/p/a.wxs" "3|x" 10).place "/p" = (finding "/p/a.wxs|2" "x" 15).place "/p" := by
  decide +kernel

end Text

end Diagnostic

namespace Baseline

section Main

variable {base : String} {rs rs' : List FileResult} {now : Int}

/-- A finding has the rule and the place of a finding of some results. -/
def Recorded (rs : List FileResult) (base : String) (y : Diagnostic) : Prop :=
  ∃ x ∈ rs.flatMap (·.diagnostics), x.ruleId = y.ruleId ∧ x.place base = y.place base

instance (rs : List FileResult) (base : String) (y : Diagnostic) : Decidable (Recorded rs base y) :=
  inferInstanceAs (Decidable (∃ x ∈ _, _))

theorem fits_ofResults (hlines : ∀ x ∈ rs.flatMap (·.diagnostics), Json.Fits x.location.line) :
    (ofResults rs base now).Fits where
  version := (by decide : Json.Fits formatVersion)
  lines := by
    intro e he
    obtain ⟨x, hx, rfl⟩ := List.mem_map.mp (List.mem_mergeSort.mp he)
    exact hlines x hx

/-- A new baseline accepts what has a fingerprint of its findings. -/
theorem accepts_ofResults (rs : List FileResult) (base : String) (now : Int) (y : Diagnostic) :
    (ofResults rs base now).accepts y base = true ↔
      ∃ x ∈ rs.flatMap (·.diagnostics), x.fingerprint base = y.fingerprint base := by
  simp only [accepts, ofResults, List.any_eq_true, List.mem_mergeSort, List.mem_map,
    decide_eq_true_eq]
  refine ⟨?_, fun ⟨x, hx, heq⟩ => ⟨_, ⟨x, hx, rfl⟩, heq⟩⟩
  rintro ⟨_, ⟨x, hx, rfl⟩, heq⟩
  exact ⟨x, hx, heq⟩

/-- What is accepted has the rule and the place of a recorded finding, unless two fingerprints
collide. -/
theorem accepts_iff_recorded {y : Diagnostic} (hy : RuleSpec.isId y.ruleId = true)
    (hids : ∀ x ∈ rs.flatMap (·.diagnostics), RuleSpec.isId x.ruleId = true)
    (hdigest : ∀ x ∈ rs.flatMap (·.diagnostics), x.fingerprint base = y.fingerprint base →
      x.fingerprintText base = y.fingerprintText base) :
    (ofResults rs base now).accepts y base = true ↔ Recorded rs base y := by
  rw [accepts_ofResults]
  constructor
  · rintro ⟨x, hx, heq⟩
    exact ⟨x, hx, (Diagnostic.fingerprintText_eq_iff (hids x hx) hy).mp (hdigest x hx heq)⟩
  · rintro ⟨x, hx, hsame⟩
    refine ⟨x, hx, ?_⟩
    unfold Diagnostic.fingerprint Diagnostic.fingerprintBy
    rw [(Diagnostic.fingerprintText_eq_iff (hids x hx) hy).mpr hsame]

/-- What goes and what stays, by a test that says what is accepted. -/
theorem filter_eq (b : Baseline) {p : Diagnostic → Bool}
    (h : ∀ y ∈ rs.flatMap (·.diagnostics), b.accepts y base = p y) :
    b.filter base rs = (rs.map fun r => { r with diagnostics := r.diagnostics.filter fun y => !p y },
      ((rs.flatMap (·.diagnostics)).filter p).length) := by
  rw [filter, FileResult.keep_eq]
  refine Prod.ext (List.map_congr_left fun r hr => ?_) ?_
  · have hkept : r.diagnostics.filter (fun y => !b.accepts y base) =
        r.diagnostics.filter fun y => !p y :=
      List.filter_congr fun y hy => by rw [h y (List.mem_flatMap_of_mem hr hy)]
    rw [hkept]
  · refine congrArg List.length (List.filter_congr fun y hy => ?_)
    rw [h y hy, Bool.not_not]

/-- **A baseline takes away what it recorded.**  The baseline of some results is saved in a directory
that is there and loaded again.  From any results it takes away exactly the findings that have the
rule and the place of a recorded one; the others stay in their results and in order, and the number
of those that went is returned.  A finding that is like a recorded one in its rule, its file, its
region of lines and the start of its message is always among them; and without bars in the files no
others are.  Nothing is left of the results that were recorded. -/
theorem filter_saved {path : String} {d d' : Disk} {v : List String}
    (hpath : Path.join [Path.dir path, Path.base path] = path)
    (hname : Path.Proper (Path.base path)) (hseat : d.Seated (Path.dir path) v)
    (hfiles : d.OnlyFiles v fun n => DiskM.Temporary n ∨ n = Path.base path)
    (hlines : ∀ x ∈ rs.flatMap (·.diagnostics), Json.Fits x.location.line)
    (hids : ∀ x ∈ rs.flatMap (·.diagnostics), RuleSpec.isId x.ruleId = true)
    (hids' : ∀ y ∈ rs'.flatMap (·.diagnostics), RuleSpec.isId y.ruleId = true)
    (hdigest : ∀ x ∈ rs.flatMap (·.diagnostics), ∀ y ∈ rs'.flatMap (·.diagnostics),
      x.fingerprint base = y.fingerprint base →
        x.fingerprintText base = y.fingerprintText base)
    (hsave : (ofResults rs base now).save path d = .ok () d') :
    ∃ b, load d' path = .ok b ∧
      b.filter base rs' =
        (rs'.map fun r => { r with
          diagnostics := r.diagnostics.filter fun y => ¬ Recorded rs base y },
        ((rs'.flatMap (·.diagnostics)).filter fun y => Recorded rs base y).length) ∧
      (∀ x ∈ rs.flatMap (·.diagnostics), ∀ y, x.Alike base y → Recorded rs base y) ∧
      (∀ y, '|' ∉ (Diagnostic.relativeFile y.location.file base).toList →
        (∀ x ∈ rs.flatMap (·.diagnostics),
          '|' ∉ (Diagnostic.relativeFile x.location.file base).toList) →
        Recorded rs base y → ∃ x ∈ rs.flatMap (·.diagnostics), x.Alike base y) ∧
      b.filter base rs = (rs.map fun r => { r with diagnostics := [] }, FileResult.total rs) := by
  have hload := load_of_save hpath hname hseat hfiles (fits_ofResults hlines)
    (Int.le_refl formatVersion) hsave
  refine ⟨_, hload, ?_, ?_, ?_, ?_⟩
  · rw [filter_eq _ fun y hy => Bool.eq_iff_iff.mpr ((accepts_iff_recorded (hids' y hy) hids
      fun x hx => hdigest x hx y hy).trans decide_eq_true_iff.symm)]
    simp only [decide_not]
  · exact fun x hx y halike => ⟨x, hx, halike.rule, Diagnostic.place_eq_of_alike halike⟩
  · rintro y hy hfree ⟨x, hx, hrule, hplace⟩
    exact ⟨x, hx, Diagnostic.alike_of_place_eq hrule (hfree x hx) hy hplace⟩
  · rw [filter_eq _ (p := fun _ => true) fun y hy =>
      (accepts_ofResults rs base now y).mpr ⟨y, hy, rfl⟩, FileResult.total_eq_length]
    simp

/-- A finding a few lines below a recorded one goes, and one further down stays. -/
theorem filter_saved_twoFindings :
    let finding (line : Int) : Diagnostic := ⟨"SEC-001", .high, "", "weak|",
      ⟨"/p/src/a.wxs", line, 1, line, 2⟩, "", none, [], [], 0, ""⟩
    let d : Disk := { root := .dir [("p", .dir [])] }
    ∃ d' b, (ofResults [⟨"/p/src/a.wxs", [finding 10], 0, false⟩] "/p" 0).save "/p/b.json" d =
        .ok () d' ∧
      load d' "/p/b.json" = .ok b ∧
      b.filter "/p" [⟨"/p/src/a.wxs", [finding 30, finding 14], 0, false⟩] =
        ([⟨"/p/src/a.wxs", [finding 30], 0, false⟩], 1) := by
  intro finding d
  have hok : ((ofResults [⟨"/p/src/a.wxs", [finding 10], 0, false⟩] "/p" 0).save "/p/b.json" d matches
      .ok ..) = true := by decide +kernel
  obtain ⟨d', hsave⟩ : ∃ d', (ofResults [⟨"/p/src/a.wxs", [finding 10], 0, false⟩] "/p" 0).save
      "/p/b.json" d = .ok () d' := by
    split at hok
    · next d' hrun => exact ⟨d', hrun⟩
    · cases hok
  have hseat : d.Seated (Path.dir "/p/b.json") ["p"] := by
    have htrail : d.trail (Path.dir "/p/b.json") = ["", "p"] := by decide
    have hroot : Disk.hollow ["p"] d.root.look [] = some (.dir []) :=
      Disk.hollow_eq_some (fun hin => by simpa using hin.1) rfl
    have hinner : Disk.hollow ["p"] d.root.look ["p"] = some (.dir []) :=
      Disk.hollow_eq_some (fun hin => hin.2 rfl) rfl
    rw [Disk.Seated, htrail]
    exact .stay hroot (by decide) (.name hroot (by decide) hinner)
  have hfiles : d.OnlyFiles ["p"] fun n => DiskM.Temporary n ∨ n = Path.base "/p/b.json" := by
    intro n _ e he
    cases he
  have hids : ∀ y ∈ ([⟨"/p/src/a.wxs", [finding 30, finding 14], 0, false⟩] :
      List FileResult).flatMap (·.diagnostics), RuleSpec.isId y.ruleId = true := by decide +kernel
  obtain ⟨b, hload, hfilter, -⟩ := filter_saved
    (by decide) ⟨by decide, by decide, by decide, by decide⟩ hseat hfiles (by decide +kernel)
    (by decide +kernel) hids (by decide +kernel) hsave
  refine ⟨d', b, hsave, hload, hfilter.trans ?_⟩
  decide +kernel

end Main

end Baseline

end InstallerLint
