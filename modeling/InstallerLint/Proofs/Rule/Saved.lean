import InstallerLint.Condition.Json
import InstallerLint.Proofs.Diagnostic.Json
import InstallerLint.Proofs.Diagnostic.Listing
import InstallerLint.Proofs.Json.Field
import InstallerLint.Rule.Basic
import Mathlib.Data.List.Basic

/-!
# Rules with one saved form

The saved form of a rule leaves out its condition, and whatever is empty.  Nothing else is lost: two
rules with one saved form and one condition are equal (`Rule.eq_of_toJson_eq`).
-/

namespace InstallerLint

/-!
## Conditions with one saved form

The saved form of a condition keeps all that it is made of, also operands that its predicate does
not use.  So two conditions with one saved form are equal (`Condition.toJson_inj`).

**Numbers.**  A predicate is saved as its number, and every predicate is read back from it
(`Predicate.ofNumber_number`), also one whose number has no meaning.
-/

open Json

namespace Json

/-- Numbers with one saved form are equal. -/
theorem int_inj {n m : Int} (h : int n = int m) : n = m := by
  have hread : integer? (toString n) = integer? (toString m) := congrArg integer? (num.inj h)
  rw [integer?_toString, integer?_toString] at hread
  exact Option.some.inj hread

theorem strs_inj {l l' : List String} (h : strs l = strs l') : l = l' :=
  List.map_injective_iff.mpr (fun _ _ => str.inj) (arr.inj h)

end Json

/-- A number that is no place of a list is told by how far it is outside. -/
theorem Numbers.outside {α β : Type} (l : List α) (g : α → β) (f : Int → β) (n : Int) :
    (if (if n < 0 then n else l.length + n) < 0 then f (if n < 0 then n else l.length + n)
      else ((l[(if n < 0 then n else l.length + n : Int).toNat]?).map g).getD
        (f ((if n < 0 then n else l.length + n) - l.length))) = f n := by
  by_cases hn : n < 0
  · rw [if_pos hn, if_pos hn]
  · have hbehind : l[((l.length : Int) + n).toNat]? = none := List.getElem?_eq_none (by omega)
    have hback : (l.length : Int) + n - l.length = n := by omega
    rw [if_neg hn, if_neg (by omega), hbehind, hback]
    rfl

/-- Every predicate is read back from its number. -/
theorem Predicate.ofNumber_number (p : Predicate) : ofNumber p.number = p := by
  cases p with
  | unknown n => exact Numbers.outside table Prod.fst unknown n
  | _ => rfl

/-- Predicates with one number are equal. -/
theorem Predicate.number_inj {p q : Predicate} (h : p.number = q.number) : p = q := by
  rw [← p.ofNumber_number, h, q.ofNumber_number]

/-- Every comparison is read back from its number. -/
theorem Comparison.ofNumber_number (c : Comparison) : ofNumber c.number = c := by
  cases c with
  | unknown n =>
      have h := Numbers.outside all id unknown n
      rwa [Option.map_id_fun, id_eq] at h
  | _ => rfl

namespace Operands

variable {o o' : Operands}

theorem listJson_inj {l l' : Option (List String)} (h : listJson l = listJson l') : l = l' := by
  cases l with
  | none =>
      cases l' with
      | none => rfl
      | some l' => cases h
  | some l =>
      cases l' with
      | none => cases h
      | some l' => rw [strs_inj h]

theorem exact_listJson (l : Option (List String)) : Exact (listJson l) := by
  cases l with
  | none => trivial
  | some l => exact exact_arr_map fun _ _ => trivial

/-- Operands with one saved form are equal. -/
theorem members_inj (h : o.members = o'.members) : o = o' := by
  simp only [members, List.cons.injEq, Prod.mk.injEq, true_and, and_true, str.injEq] at h
  obtain ⟨hname, hvalue, hvalues, hpattern, helement, helements, hcomparison, hcount⟩ := h
  have hnumber : o.comparison.number = o'.comparison.number := int_inj hcomparison
  have hcompare : o.comparison = o'.comparison := by
    rw [← o.comparison.ofNumber_number, hnumber, o'.comparison.ofNumber_number]
  cases o
  cases o'
  rw [mk.injEq]
  exact ⟨hname, hvalue, listJson_inj hvalues, hpattern, helement, listJson_inj helements, hcompare,
    int_inj hcount⟩

theorem exact_members (o : Operands) : ExactMembers o.members :=
  ⟨trivial, trivial, exact_listJson _, trivial, trivial, exact_listJson _,
    ⟨o.comparison.number, rfl⟩, ⟨o.count, rfl⟩, trivial⟩

end Operands

namespace Condition

/-- The saved parts tell how many there are: none is not written like an empty combination. -/
theorem partsJson_inj {p : Predicate} {js js' : List Json} (h : partsJson p js = partsJson p js') :
    js = js' := by
  unfold partsJson at h
  split_ifs at h with hnone hnone'
  · simp only [Bool.and_eq_true, List.isEmpty_iff] at hnone hnone'
    rw [hnone.1.1, hnone'.1.1]
  · exact arr.inj h

theorem exact_partsJson {p : Predicate} {js : List Json} (h : ExactItems js) :
    Exact (partsJson p js) := by
  unfold partsJson
  split_ifs
  · trivial
  · exact h

mutual

/-- **No two conditions share a saved form.** -/
theorem toJson_inj : ∀ {c c' : Condition}, c.toJson = c'.toJson → c = c'
  | mk p o cs, mk p' o' cs', h => by
      rw [toJson, toJson] at h
      obtain ⟨hop, hrest⟩ := List.cons.inj (obj.inj h)
      obtain ⟨hmembers, hchildren⟩ := List.append_inj' hrest rfl
      obtain rfl : p = p' := Predicate.number_inj (int_inj (Prod.mk.inj hop).2)
      have hparts : partsJson p (listToJson cs) = partsJson p (listToJson cs') :=
        (Prod.mk.inj (List.cons.inj hchildren).1).2
      rw [Operands.members_inj hmembers, listToJson_inj (partsJson_inj hparts)]

/-- No two lists of conditions share a saved form. -/
theorem listToJson_inj : ∀ {cs cs' : List Condition}, listToJson cs = listToJson cs' → cs = cs'
  | [], [], _ => rfl
  | [], _ :: _, h => by
      rw [listToJson, listToJson] at h
      cases h
  | _ :: _, [], h => by
      rw [listToJson, listToJson] at h
      cases h
  | c :: cs, c' :: cs', h => by
      rw [listToJson, listToJson] at h
      obtain ⟨hfirst, hrest⟩ := List.cons.inj h
      rw [toJson_inj hfirst, listToJson_inj hrest]

end

mutual

theorem exact_toJson : ∀ c : Condition, Exact c.toJson
  | mk p o cs => by
      rw [toJson]
      exact ⟨⟨p.number, rfl⟩, exactMembers_append o.exact_members ⟨exact_partsJson (exact_listToJson cs), trivial⟩⟩

theorem exact_listToJson : ∀ cs : List Condition, ExactItems (listToJson cs)
  | [] => by
      rw [listToJson]
      trivial
  | c :: cs => by
      rw [listToJson]
      exact ⟨exact_toJson c, exact_listToJson cs⟩

end

end Condition

/-! ## Rules -/

/-- Remedies with one saved form are equal. -/
theorem Fix.toJson_inj {f f' : Fix} (h : f.toJson = f'.toJson) : f = f' := by
  have hread : ofJson f.toJson = ofJson f'.toJson := congrArg ofJson h
  rw [ofJson_toJson, ofJson_toJson] at hread
  exact Option.some.inj hread

namespace Rule

/-- The fields of the saved form. -/
def slots (r : Rule) : List (String × Option Json) := [
  ("id", some (.str r.id)), ("name", optional r.name), ("description", optional r.description),
  ("severity", some (.str r.severity.text)), ("category", optional r.category),
  ("element", some (.str r.element)), ("message", some (.str r.message)), ("help", optional r.help),
  ("fix", r.fix.map (·.toJson)), ("tags", if r.tags.isEmpty then none else some (.strs r.tags)),
  ("enabled", r.enabled.map .bool),
  ("effort_minutes", if r.effortMinutes = 0 then none else some (.int r.effortMinutes)),
  ("doc_url", optional r.docUrl)]

theorem toJson_eq (r : Rule) : r.toJson = .obj (filled r.slots) := by
  simp only [toJson, slots, optStr_eq, ite_member, filled_cons]
  cases r.fix <;> cases r.enabled <;> simp [filled]

theorem nodup_slots (r : Rule) : (r.slots.map Prod.fst).Nodup := by
  show ["id", "name", "description", "severity", "category", "element", "message", "help", "fix",
    "tags", "enabled", "effort_minutes", "doc_url"].Nodup
  decide

variable {r r' : Rule}

/-- **No two rules with one condition share a saved form.** -/
theorem eq_of_toJson_eq (h : r.toJson = r'.toJson) (hcondition : r.condition = r'.condition) :
    r = r' := by
  rw [toJson_eq, toJson_eq] at h
  have hslots : r.slots = r'.slots := filled_inj rfl r.nodup_slots (obj.inj h)
  simp only [slots, List.cons.injEq, Prod.mk.injEq, true_and, and_true, Option.some.injEq,
    str.injEq] at hslots
  obtain ⟨hid, hname, hdescription, hseverity, hcategory, helement, hmessage, hhelp, hfix, htags,
    henabled, heffort, hdoc⟩ := hslots
  have hfix' : r.fix = r'.fix := Option.map_injective (fun _ _ => Fix.toJson_inj) hfix
  have henabled' : r.enabled = r'.enabled := Option.map_injective (fun _ _ => bool.inj) henabled
  have htags' : r.tags = r'.tags := by
    split_ifs at htags with hempty hempty'
    · rw [List.isEmpty_iff.mp hempty, List.isEmpty_iff.mp hempty']
    · exact strs_inj (Option.some.inj htags)
  have heffort' : r.effortMinutes = r'.effortMinutes := by
    split_ifs at heffort with hzero hzero'
    · rw [hzero, hzero']
    · exact int_inj (Option.some.inj heffort)
  cases r
  cases r'
  rw [mk.injEq]
  exact ⟨hid, optional_inj hname, optional_inj hdescription, Severity.text_injective hseverity,
    optional_inj hcategory, helement, hcondition, hmessage, optional_inj hhelp, hfix', htags',
    henabled', heffort', optional_inj hdoc⟩

/-- The saved form of a rule can be written and read without loss. -/
theorem exact_toJson (r : Rule) : Exact r.toJson := by
  rw [toJson_eq]
  refine exact_filled fun s hs v hv => ?_
  simp only [slots, List.mem_cons, List.not_mem_nil, or_false] at hs
  rcases hs with rfl | rfl | rfl | rfl | rfl | rfl | rfl | rfl | rfl | rfl | rfl | rfl | rfl
  · cases hv
    trivial
  · exact exact_of_optional hv
  · exact exact_of_optional hv
  · cases hv
    trivial
  · exact exact_of_optional hv
  · cases hv
    trivial
  · cases hv
    trivial
  · exact exact_of_optional hv
  · obtain ⟨f, -, rfl⟩ := Option.map_eq_some_iff.mp hv
    exact f.exact_toJson
  · dsimp only at hv
    split_ifs at hv
    cases hv
    exact exact_arr_map fun _ _ => trivial
  · obtain ⟨b, -, rfl⟩ := Option.map_eq_some_iff.mp hv
    trivial
  · dsimp only at hv
    split_ifs at hv
    cases hv
    exact ⟨r.effortMinutes, rfl⟩
  · exact exact_of_optional hv

end Rule

end InstallerLint
