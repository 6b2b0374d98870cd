import InstallerLint.Proofs.Json.Field

/-!
# Saved results are read back

Every record of a result is read from its saved form as it was, up to numbers that do not fit into
64 bits: a form with such a number is not read at all.  A graded level is read from its name.

**Slots.**  Each record lists the fields of its saved form with those left out (`slots`); its saved
form is the object filled from them, and so each field reads as its slot says.
-/

namespace InstallerLint

open Json

namespace Location

/-- The fields of the saved form. -/
def slots (l : Location) : List (String × Option Json) := [
  ("file", some (.str l.file)), ("line", some (.int l.line)), ("col", some (.int l.col)),
  ("end_line", some (.int l.endLine)), ("end_col", some (.int l.endCol))]

/-- A location is saved with all its members. -/
theorem toJson_eq (l : Location) : l.toJson = .obj (filled l.slots) := rfl

/-- The names of the members differ, also up to letter case. -/
theorem apart_slots (l : Location) : (l.slots.map Prod.fst).Pairwise Apart := by
  show ["file", "line", "col", "end_line", "end_col"].Pairwise Apart
  exact apart_of_nodup (by decide)

/-- A location that is read back at all is the one that was saved. -/
theorem eq_of_ofJson_toJson {l l' : Location} (h : ofJson l.toJson = some l') : l' = l := by
  have hap := l.apart_slots
  rw [toJson_eq, ofJson, guard_record rfl] at h
  simp only [Option.bind_eq_bind, Option.bind_eq_some_iff,
    Option.pure_def, Option.some.injEq] at h
  obtain ⟨file, hfile, line, hline, col, hcol, endLine, hendLine, endCol, hendCol, rfl⟩ := h
  rw [textField_filled hap "file" (s := l.file) (by simp [slots])] at hfile
  obtain rfl := Option.some.inj hfile
  rw [eq_of_intField_filled hap (n := l.line) (by simp [slots]) hline,
    eq_of_intField_filled hap (n := l.col) (by simp [slots]) hcol,
    eq_of_intField_filled hap (n := l.endLine) (by simp [slots]) hendLine,
    eq_of_intField_filled hap (n := l.endCol) (by simp [slots]) hendCol]

/-- The saved form of a location can be written and read without loss. -/
theorem exact_toJson (l : Location) : Exact l.toJson := by
  refine ⟨trivial, ⟨l.line, rfl⟩, ⟨l.col, rfl⟩, ⟨l.endLine, rfl⟩, ⟨l.endCol, rfl⟩, trivial⟩

end Location

namespace Attribute

/-- The fields of the saved form. -/
def slots (a : Attribute) : List (String × Option Json) := [
  ("name", some (.str a.name)), ("value", some (.str a.value))]

theorem apart_slots (a : Attribute) : (a.slots.map Prod.fst).Pairwise Apart := by
  show ["name", "value"].Pairwise Apart
  exact apart_of_nodup (by decide)

/-- An attribute is read back as it was saved. -/
theorem ofJson_toJson (a : Attribute) : ofJson a.toJson = some a := by
  have hap := a.apart_slots
  have hname := textField_filled hap "name" (s := a.name) (by simp [slots])
  have hvalue := textField_filled hap "value" (s := a.value) (by simp [slots])
  show ofJson (.obj (filled a.slots)) = some a
  rw [ofJson, guard_record rfl, hname, hvalue]
  rfl

end Attribute

namespace Fix

/-- The fields of the saved form of an edit. -/
def actionSlots (a : FixAction) : List (String × Option Json) := [
  ("kind", some (.str a.kind)), ("name", optional a.name), ("value", optional a.value),
  ("element", optional a.element),
  ("attributes", if a.attributes.isEmpty then none else some (.arr (a.attributes.map (·.toJson)))),
  ("position", optional a.position)]

theorem actionToJson_eq (a : FixAction) : actionToJson a = .obj (filled (actionSlots a)) := by
  simp only [actionToJson, actionSlots, optStr_eq, ite_member, filled_cons]
  simp [filled]

theorem apart_actionSlots (a : FixAction) : ((actionSlots a).map Prod.fst).Pairwise Apart := by
  show ["kind", "name", "value", "element", "attributes", "position"].Pairwise Apart
  exact apart_of_nodup (by decide)

/-- An action is read back as it was saved. -/
theorem actionOfJson_actionToJson (a : FixAction) : actionOfJson (actionToJson a) = some a := by
  have hap := apart_actionSlots a
  have hattrs : (obj (filled (actionSlots a))).listField "attributes" Attribute.ofJson =
      some a.attributes := by
    rw [listField_filled hap (l := a.attributes.map (·.toJson))]
    · induction a.attributes with
      | nil => rfl
      | cons x l ih =>
          rw [List.map_cons, List.mapM_cons, Attribute.ofJson_toJson, ih]
          rfl
    · by_cases hempty : a.attributes = []
      · exact Or.inr ⟨by simp [hempty], by simp [actionSlots, hempty]⟩
      · exact Or.inl (by simp [actionSlots, hempty])
  rw [actionToJson_eq, actionOfJson, guard_record rfl]
  simp only [textField_filled hap "kind" (s := a.kind) (by simp [actionSlots]),
    textField_filled_optional hap "name" (s := a.name) (by simp [actionSlots]),
    textField_filled_optional hap "value" (s := a.value) (by simp [actionSlots]),
    textField_filled_optional hap "element" (s := a.element) (by simp [actionSlots]),
    textField_filled_optional hap "position" (s := a.position) (by simp [actionSlots]),
    hattrs]
  rfl

/-- The fields of the saved form. -/
def slots (f : Fix) : List (String × Option Json) := [
  ("description", some (.str f.description)), ("action", some (actionToJson f.action))]

theorem apart_slots (f : Fix) : (f.slots.map Prod.fst).Pairwise Apart := by
  show ["description", "action"].Pairwise Apart
  exact apart_of_nodup (by decide)

/-- A remedy is read back as it was saved. -/
theorem ofJson_toJson (f : Fix) : ofJson f.toJson = some f := by
  have hap := f.apart_slots
  have haction : (obj (filled f.slots)).field? "action" = some (actionToJson f.action) :=
    field?_filled hap (o := some (actionToJson f.action)) (by simp [slots])
  show ofJson (.obj (filled f.slots)) = some f
  rw [ofJson, guard_record rfl]
  simp only [haction, Option.getD_some,
    actionOfJson_actionToJson,
    textField_filled hap "description" (s := f.description) (by simp [slots])]
  rfl

theorem exact_toJson (f : Fix) : Exact f.toJson := by
  refine ⟨trivial, ?_, trivial⟩
  rw [actionToJson_eq]
  refine exact_filled fun s hs v hv => ?_
  simp only [actionSlots, List.mem_cons, List.not_mem_nil, or_false] at hs
  rcases hs with rfl | rfl | rfl | rfl | rfl | rfl
  · cases hv
    trivial
  · exact exact_of_optional hv
  · exact exact_of_optional hv
  · exact exact_of_optional hv
  · dsimp only at hv
    split_ifs at hv
    cases hv
    exact exact_arr_map fun a _ => ⟨trivial, trivial, trivial⟩
  · exact exact_of_optional hv

end Fix

namespace Related

/-- The fields of the saved form. -/
def slots (r : Related) : List (String × Option Json) := [
  ("location", some r.location.toJson), ("message", some (.str r.message))]

theorem apart_slots (r : Related) : (r.slots.map Prod.fst).Pairwise Apart := by
  show ["location", "message"].Pairwise Apart
  exact apart_of_nodup (by decide)

/-- A related place that is read back at all is the one that was saved. -/
theorem eq_of_ofJson_toJson {r r' : Related} (h : ofJson r.toJson = some r') : r' = r := by
  have hap := r.apart_slots
  have hloc : (obj (filled r.slots)).field? "location" = some r.location.toJson :=
    field?_filled hap (o := some r.location.toJson) (by simp [slots])
  change ofJson (.obj (filled r.slots)) = some r' at h
  rw [ofJson, guard_record rfl] at h
  simp only [hloc, Option.getD_some,
    textField_filled hap "message" (s := r.message) (by simp [slots]), Option.bind_eq_bind,
    Option.bind_eq_some_iff, Option.pure_def, Option.some.injEq] at h
  obtain ⟨l, hl, message, rfl, rfl⟩ := h
  rw [Location.eq_of_ofJson_toJson hl]

end Related

namespace Severity

/-- The name of a level tells the level. -/
theorem parse?_text {s : Severity} (h : s ≠ .unset) : parse? s.text = some s := by
  have hnames : parse? info.text = some info ∧ parse? low.text = some low ∧
      parse? medium.text = some medium ∧ parse? high.text = some high ∧
      parse? blocker.text = some blocker := by decide +kernel
  obtain ⟨hinfo, hlow, hmedium, hhigh, hblocker⟩ := hnames
  cases s with
  | unset => exact absurd rfl h
  | info => exact hinfo
  | low => exact hlow
  | medium => exact hmedium
  | high => exact hhigh
  | blocker => exact hblocker

end Severity

namespace Diagnostic

/-- The fields of the saved form. -/
def slots (d : Diagnostic) : List (String × Option Json) := [
  ("rule_id", some (.str d.ruleId)), ("severity", some (.str d.severity.text)),
  ("category", optional d.category), ("message", some (.str d.message)),
  ("location", some d.location.toJson), ("help", optional d.help),
  ("fix", d.fix.map (·.toJson)),
  ("related", if d.related.isEmpty then none else some (.arr (d.related.map (·.toJson)))),
  ("tags", if d.tags.isEmpty then none else some (.strs d.tags)),
  ("effort_minutes", if d.effortMinutes = 0 then none else some (.int d.effortMinutes)),
  ("doc_url", optional d.docUrl)]

/-- A finding is saved with the members that are not empty. -/
theorem toJson_eq (d : Diagnostic) : d.toJson = .obj (filled d.slots) := by
  simp only [toJson, slots, optStr_eq, ite_member, filled_cons]
  cases d.fix <;> simp [filled]

theorem apart_slots (d : Diagnostic) : (d.slots.map Prod.fst).Pairwise Apart := by
  show ["rule_id", "severity", "category", "message", "location", "help", "fix", "related", "tags",
    "effort_minutes", "doc_url"].Pairwise Apart
  exact apart_of_nodup (by decide)

variable {d d' : Diagnostic}

/-- The level of a finding is read back if it has one. -/
theorem severityOfJson_toJson (h : d.severity ≠ .unset) :
    severityOfJson d.toJson = some d.severity := by
  have hfield : (obj (filled d.slots)).field? "severity" = some (.str d.severity.text) :=
    field?_filled d.apart_slots (o := some (.str d.severity.text)) (by simp [slots])
  rw [toJson_eq, severityOfJson, hfield]
  simp only [str?, Option.bind_some, Severity.parse?_text h]

/-- So is its remedy, also when there is none. -/
theorem fix_of_toJson (d : Diagnostic) : (d.toJson.field? "fix").mapM Fix.ofJson = some d.fix := by
  have hfield : (obj (filled d.slots)).field? "fix" = d.fix.map (·.toJson) := by
    rw [field?_filled d.apart_slots (o := d.fix.map (·.toJson)) (by simp [slots])]
    cases d.fix <;> rfl
  rw [toJson_eq, hfield]
  cases d.fix with
  | none => rfl
  | some f => simp [Fix.ofJson_toJson]

theorem related_of_toJson {l : List Related}
    (h : d.toJson.listField "related" Related.ofJson = some l) : l = d.related := by
  rw [toJson_eq, listField_filled d.apart_slots (l := d.related.map (·.toJson))] at h
  · exact eq_of_mapM_map (fun r _ r' hr => Related.eq_of_ofJson_toJson hr) h
  · by_cases hempty : d.related = []
    · exact Or.inr ⟨by simp [hempty], by simp [slots, hempty]⟩
    · exact Or.inl (by simp [slots, hempty])

theorem tags_of_toJson {l : List String}
    (h : d.toJson.listField "tags" textItem = some l) : l = d.tags := by
  rw [toJson_eq, listField_filled d.apart_slots (l := d.tags.map .str)] at h
  · exact eq_of_mapM_map (fun s _ s' hs => (Option.some.inj hs).symm) h
  · by_cases hempty : d.tags = []
    · exact Or.inr ⟨by simp [hempty], by simp [slots, hempty]⟩
    · exact Or.inl (by simp [slots, hempty, strs])

/-- A graded finding is read back as it was. -/
theorem eq_of_ofJson_toJson (hgraded : d.severity ≠ .unset) (h : ofJson d.toJson = some d') :
    d' = d := by
  have hap := d.apart_slots
  have hloc : d.toJson.field? "location" = some d.location.toJson := by
    rw [toJson_eq]
    exact field?_filled hap (o := some d.location.toJson) (by simp [slots])
  have heffort : ∀ {n : Int}, d.toJson.intField "effort_minutes" = some n →
      n = d.effortMinutes := by
    intro n hn
    rw [toJson_eq] at hn
    exact eq_of_intField_filled_ite hap (n := d.effortMinutes) (by simp [slots]) hn
  have htexts : d.toJson.textField "rule_id" = some d.ruleId ∧
      d.toJson.textField "category" = some d.category ∧
      d.toJson.textField "message" = some d.message ∧
      d.toJson.textField "help" = some d.help ∧
      d.toJson.textField "doc_url" = some d.docUrl := by
    rw [toJson_eq]
    refine ⟨textField_filled hap _ (by simp [slots]), textField_filled_optional hap _ (by simp [slots]),
      textField_filled hap _ (by simp [slots]), textField_filled_optional hap _ (by simp [slots]),
      textField_filled_optional hap _ (by simp [slots])⟩
  obtain ⟨hrule, hcategory, hmessage, hhelp, hdoc⟩ := htexts
  have hrecord : d.toJson.isRecord = true := rfl
  rw [ofJson, guard_record hrecord] at h
  simp only [hloc, Option.getD_some, hrule, hcategory, hmessage,
    hhelp, hdoc, severityOfJson_toJson hgraded, fix_of_toJson, Option.bind_eq_bind,
    Option.bind_eq_some_iff, Option.pure_def, Option.some.injEq] at h
  obtain ⟨_, rfl, _, rfl, _, rfl, _, rfl, l, hl, _, rfl, _, rfl, related, hrelated, tags, htags,
    effort, hminutes, _, rfl, rfl⟩ := h
  rw [Location.eq_of_ofJson_toJson hl, related_of_toJson hrelated, tags_of_toJson htags,
    heffort hminutes]

/-- The saved form of a finding can be written and read without loss. -/
theorem exact_toJson (d : Diagnostic) : Exact d.toJson := by
  rw [toJson_eq]
  refine exact_filled fun s hs v hv => ?_
  simp only [slots, List.mem_cons, List.not_mem_nil, or_false] at hs
  rcases hs with rfl | rfl | rfl | rfl | rfl | rfl | rfl | rfl | rfl | rfl | rfl
  · cases hv
    trivial
  · cases hv
    trivial
  · exact exact_of_optional hv
  · cases hv
    trivial
  · cases hv
    exact d.location.exact_toJson
  · exact exact_of_optional hv
  · obtain ⟨f, -, rfl⟩ := Option.map_eq_some_iff.mp hv
    exact f.exact_toJson
  · dsimp only at hv
    split_ifs at hv
    cases hv
    exact exact_arr_map fun r _ => ⟨r.location.exact_toJson, trivial, trivial⟩
  · dsimp only at hv
    split_ifs at hv
    cases hv
    exact exact_arr_map fun _ _ => trivial
  · dsimp only at hv
    split_ifs at hv
    cases hv
    exact ⟨d.effortMinutes, rfl⟩
  · exact exact_of_optional hv

end Diagnostic

namespace FileResult

/-- The fields of the saved form. -/
def slots (r : FileResult) : List (String × Option Json) := [
  ("file", some (.str r.file)), ("diagnostics", some (.arr (r.diagnostics.map (·.toJson)))),
  ("suppressed", if (r.suppressed : Int) = 0 then none else some (.int r.suppressed))]

theorem toJson_eq (r : FileResult) : r.toJson = .obj (filled r.slots) := by
  have hcount : (if r.suppressed = 0 then [] else [("suppressed", Json.nat r.suppressed)]) =
      (if (r.suppressed : Int) = 0 then [] else [("suppressed", Json.int r.suppressed)]) := by
    by_cases h : r.suppressed = 0
    · rw [if_pos h, if_pos (Int.natCast_eq_zero.mpr h)]
    · rw [if_neg h, if_neg fun h' => h (Int.natCast_eq_zero.mp h')]
      rfl
  rw [toJson, hcount, ite_member, slots, filled_cons, filled_cons, filled_cons]
  simp [filled]

theorem apart_slots (r : FileResult) : (r.slots.map Prod.fst).Pairwise Apart := by
  show ["file", "diagnostics", "suppressed"].Pairwise Apart
  exact apart_of_nodup (by decide)

/-- So can that of a result. -/
theorem exact_toJson (r : FileResult) : Exact r.toJson := by
  rw [toJson_eq]
  refine exact_filled fun s hs v hv => ?_
  simp only [slots, List.mem_cons, List.not_mem_nil, or_false] at hs
  rcases hs with rfl | rfl | rfl
  · cases hv
    trivial
  · cases hv
    exact exact_arr_map fun d _ => d.exact_toJson
  · dsimp only at hv
    split_ifs at hv
    cases hv
    exact ⟨r.suppressed, rfl⟩

/-- A graded result is read back as it was; where it came from is not saved. -/
theorem eq_of_ofJson_toJson {r r' : FileResult} (hgraded : r.isGraded = true)
    (h : ofJson r.toJson = some r') : r' = { r with fromCache := false } := by
  have hap := r.apart_slots
  have hfile : r.toJson.textField "file" = some r.file := by
    rw [toJson_eq]
    exact textField_filled hap _ (by simp [slots])
  have hcount : ∀ {n : Int}, r.toJson.intField "suppressed" = some n → n = r.suppressed := by
    intro n hn
    rw [toJson_eq] at hn
    exact eq_of_intField_filled_ite hap (n := (r.suppressed : Int)) (by simp [slots]) hn
  have hlist : ∀ {l : List Diagnostic},
      r.toJson.listField "diagnostics" Diagnostic.ofJson = some l → l = r.diagnostics := by
    intro l hl
    rw [toJson_eq, listField_filled hap (Or.inl (by simp [slots]) :
      ("diagnostics", some (.arr (r.diagnostics.map (·.toJson)))) ∈ r.slots ∨ _)] at hl
    refine eq_of_mapM_map (fun d hd d' hd' => ?_) hl
    have hlevel := List.all_eq_true.mp hgraded d hd
    exact Diagnostic.eq_of_ofJson_toJson (by simpa using hlevel) hd'
  have hrecord : r.toJson.isRecord = true := rfl
  rw [ofJson, guard_record hrecord] at h
  simp only [hfile, Option.bind_eq_bind,
    Option.bind_eq_some_iff, Option.pure_def, Option.some.injEq] at h
  obtain ⟨count, hn, _, rfl, l, hl, rfl⟩ := h
  rw [hcount hn, hlist hl, Int.toNat_natCast]

end FileResult

end InstallerLint
