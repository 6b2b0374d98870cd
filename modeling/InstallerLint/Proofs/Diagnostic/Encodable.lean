import InstallerLint.Proofs.Diagnostic.Json

/-!
# Which results can be saved

A result whose findings are graded and whose numbers fit into 64 bits is `Encodable`: its saved form
is read, and gives the result back (`FileResult.ofJson_toJson`).
-/

namespace InstallerLint

open Json

namespace Json

/-- An integer of 64 bits. -/
def Fits (n : Int) : Prop := -(Numbers.halfWords : Int) ≤ n ∧ n < (Numbers.halfWords : Int)

instance (n : Int) : Decidable (Fits n) := inferInstanceAs (Decidable (_ ∧ _))

variable {slots : List (String × Option Json)} {n : Int}

theorem intField_filled (hapart : (slots.map Prod.fst).Pairwise Apart) (name : String)
    (h : (name, some (.int n)) ∈ slots) (hn : Fits n) :
    (obj (filled slots)).intField name = some n := by
  have hint : (Json.int n).int? = some n := integer?_toString n
  rw [intField, field?_filled hapart h]
  show (Json.int n).int?.filter _ = some n
  rw [hint]
  simp [Option.filter, hn.1, hn.2]

theorem intField_filled_ite (hapart : (slots.map Prod.fst).Pairwise Apart) (name : String)
    (h : (name, if n = 0 then none else some (.int n)) ∈ slots) (hn : Fits n) :
    (obj (filled slots)).intField name = some n := by
  by_cases hzero : n = 0
  · rw [if_pos hzero] at h
    rw [intField, field?_filled hapart h, hzero]
    rfl
  · rw [if_neg hzero] at h
    exact intField_filled hapart name h hn

/-- A number that is read from a field has 64 bits. -/
theorem fits_of_intField {j : Json} {name : String} (h : j.intField name = some n) : Fits n := by
  unfold intField at h
  split at h
  · obtain rfl := Option.some.inj h
    decide
  · have hbounds := (Option.filter_eq_some_iff.mp h).2
    simpa [Fits] using hbounds

/-- Items that are all read give the list that was written. -/
theorem mapM_map_eq {α : Type} {write : α → Json} {read : Json → Option α} {l : List α}
    (h : ∀ a ∈ l, read (write a) = some a) : (l.map write).mapM read = some l := by
  induction l with
  | nil => rfl
  | cons a l ih =>
      rw [List.map_cons, List.mapM_cons, h a List.mem_cons_self,
        ih fun b hb => h b (List.mem_cons_of_mem _ hb)]
      rfl

end Json

namespace Location

/-- All numbers have 64 bits. -/
structure Fits (l : Location) : Prop where
  line : Json.Fits l.line
  col : Json.Fits l.col
  endLine : Json.Fits l.endLine
  endCol : Json.Fits l.endCol

theorem ofJson_toJson {l : Location} (h : l.Fits) : ofJson l.toJson = some l := by
  have hap := l.apart_slots
  rw [toJson_eq, ofJson, guard_record rfl]
  simp only [textField_filled hap "file" (s := l.file) (by simp [slots]),
    intField_filled hap "line" (by simp [slots]) h.line,
    intField_filled hap "col" (by simp [slots]) h.col,
    intField_filled hap "end_line" (by simp [slots]) h.endLine,
    intField_filled hap "end_col" (by simp [slots]) h.endCol]
  rfl

end Location

theorem Related.ofJson_toJson {r : Related} (h : r.location.Fits) : ofJson r.toJson = some r := by
  have hap := r.apart_slots
  have hloc : (obj (filled r.slots)).field? "location" = some r.location.toJson :=
    field?_filled hap (o := some r.location.toJson) (by simp [slots])
  show ofJson (.obj (filled r.slots)) = some r
  rw [ofJson, guard_record rfl]
  simp only [hloc, Option.getD_some, Location.ofJson_toJson h,
    textField_filled hap "message" (s := r.message) (by simp [slots])]
  rfl

namespace Diagnostic

/-- The finding is graded and all its numbers have 64 bits. -/
structure Encodable (d : Diagnostic) : Prop where
  graded : d.severity ≠ .unset
  location : d.location.Fits
  related : ∀ r ∈ d.related, r.location.Fits
  effort : Json.Fits d.effortMinutes

theorem ofJson_toJson {d : Diagnostic} (h : d.Encodable) : ofJson d.toJson = some d := by
  have hap := d.apart_slots
  have hloc : d.toJson.field? "location" = some d.location.toJson := by
    rw [toJson_eq]
    exact field?_filled hap (o := some d.location.toJson) (by simp [slots])
  have heffort : d.toJson.intField "effort_minutes" = some d.effortMinutes := by
    rw [toJson_eq]
    exact intField_filled_ite hap _ (by simp [slots]) h.effort
  have hrelated : d.toJson.listField "related" Related.ofJson = some d.related := by
    rw [toJson_eq, listField_filled hap (l := d.related.map (·.toJson))]
    · exact mapM_map_eq fun r hr => Related.ofJson_toJson (h.related r hr)
    · by_cases hempty : d.related = []
      · exact Or.inr ⟨by simp [hempty], by simp [slots, hempty]⟩
      · exact Or.inl (by simp [slots, hempty])
  have htags : d.toJson.listField "tags" textItem = some d.tags := by
    rw [toJson_eq, listField_filled hap (l := d.tags.map .str)]
    · exact mapM_map_eq fun _ _ => rfl
    · by_cases hempty : d.tags = []
      · exact Or.inr ⟨by simp [hempty], by simp [slots, hempty]⟩
      · exact Or.inl (by simp [slots, hempty, strs])
  have htexts : d.toJson.textField "rule_id" = some d.ruleId ∧
      d.toJson.textField "category" = some d.category ∧
      d.toJson.textField "message" = some d.message ∧
      d.toJson.textField "help" = some d.help ∧
      d.toJson.textField "doc_url" = some d.docUrl := by
    rw [toJson_eq]
    refine ⟨textField_filled hap _ (by simp [slots]),
      textField_filled_optional hap _ (by simp [slots]),
      textField_filled hap _ (by simp [slots]), textField_filled_optional hap _ (by simp [slots]),
      textField_filled_optional hap _ (by simp [slots])⟩
  obtain ⟨hrule, hcategory, hmessage, hhelp, hdoc⟩ := htexts
  have hrecord : d.toJson.isRecord = true := rfl
  rw [ofJson, guard_record hrecord]
  simp only [hloc, Option.getD_some, Location.ofJson_toJson h.location, hrule, hcategory, hmessage,
    hhelp, hdoc, severityOfJson_toJson h.graded, fix_of_toJson, hrelated, htags, heffort]
  rfl

end Diagnostic

namespace FileResult

/-- All findings can be saved, and the number of hidden ones has 64 bits. -/
structure Encodable (r : FileResult) : Prop where
  diagnostics : ∀ d ∈ r.diagnostics, d.Encodable
  suppressed : Json.Fits r.suppressed

/-- A saved result is read back; where it came from is not saved. -/
theorem ofJson_toJson {r : FileResult} (h : r.Encodable) :
    ofJson r.toJson = some { r with fromCache := false } := by
  have hap := r.apart_slots
  have hfile : r.toJson.textField "file" = some r.file := by
    rw [toJson_eq]
    exact textField_filled hap _ (by simp [slots])
  have hcount : r.toJson.intField "suppressed" = some (r.suppressed : Int) := by
    rw [toJson_eq]
    exact intField_filled_ite hap _ (by simp [slots]) h.suppressed
  have hlist : r.toJson.listField "diagnostics" Diagnostic.ofJson = some r.diagnostics := by
    rw [toJson_eq, listField_filled hap (Or.inl (by simp [slots]) :
      ("diagnostics", some (.arr (r.diagnostics.map (·.toJson)))) ∈ r.slots ∨ _)]
    exact mapM_map_eq fun d hd => Diagnostic.ofJson_toJson (h.diagnostics d hd)
  have hrecord : r.toJson.isRecord = true := rfl
  rw [ofJson, guard_record hrecord]
  simp only [hfile, hcount, hlist]
  rfl

end FileResult

end InstallerLint
