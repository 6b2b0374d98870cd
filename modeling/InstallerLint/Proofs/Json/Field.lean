import InstallerLint.Diagnostic.Json
import InstallerLint.Proofs.Json.RoundTrip

/-!
# Reading the fields of a record

A saved record is an object whose members may be left out.  `filled` writes such an object from a
list of slots, and a field of it reads as its slot says, when no two names are equal up to case.
-/

namespace InstallerLint

namespace Case

theorem equalFold_self (s : String) : equalFold s s = true := by
  unfold equalFold
  rw [beq_self_eq_true, Bool.true_and, List.all_eq_true]
  rintro ⟨a, b⟩ h
  obtain ⟨n, hn, hab⟩ := List.getElem_of_mem h
  rw [List.getElem_zip] at hab
  obtain ⟨rfl, rfl⟩ := Prod.mk.inj hab
  simp

end Case

namespace Json

/-- Two names that differ in more than case. -/
def Apart (a b : String) : Prop := Case.equalFold a b = false ∧ Case.equalFold b a = false

instance (a b : String) : Decidable (Apart a b) := inferInstanceAs (Decidable (_ ∧ _))

/-- The names of the fields of saved records. -/
def fieldNames : List String := [
  "action", "analyzed_at", "attributes", "category", "col", "content_hash", "context", "created",
  "created_at", "description", "diagnostics", "doc_url", "effort_minutes", "element", "end_col",
  "end_line", "entries", "file", "fingerprint", "fix", "help", "issues", "kind", "line", "location",
  "message", "message_hash", "name", "position", "related", "result_file", "rule_id", "severity",
  "suppressed", "tags", "tool_version", "value", "version"]

theorem apart_fieldNames : ∀ a ∈ fieldNames, ∀ b ∈ fieldNames, a ≠ b → Apart a b := by
  decide +kernel

theorem apart_of_nodup {names : List String}
    (h : names.Nodup ∧ ∀ n ∈ names, n ∈ fieldNames) : names.Pairwise Apart := by
  obtain ⟨hnodup, hmem⟩ := h
  refine hnodup.imp_of_mem fun ha hb hne => ?_
  exact apart_fieldNames _ (hmem _ ha) _ (hmem _ hb) hne

/-- The members of a record, without those that are left out. -/
def filled (slots : List (String × Option Json)) : List (String × Json) :=
  slots.flatMap fun s => (s.2.map fun v => (s.1, v)).toList

/-- A text that is left out when it is empty. -/
def optional (s : String) : Option Json := if s = "" then none else some (.str s)

theorem guard_record {β : Type} {j : Json} (h : j.isRecord = true) (next : Unit → Option β) :
    ((guard (j.isRecord = true) : Option Unit) >>= next) = next () := by
  unfold guard
  rw [if_pos h]
  rfl

theorem of_guard_bind {β : Type} {p : Prop} [Decidable p] {next : Unit → Option β} {b : β}
    (h : ((guard p : Option Unit) >>= next) = some b) : p ∧ next () = some b := by
  unfold guard at h
  by_cases hp : p
  · rw [if_pos hp] at h
    exact ⟨hp, h⟩
  · rw [if_neg hp] at h
    cases h

section Filled

theorem filled_cons (name : String) (o : Option Json) (slots : List (String × Option Json)) :
    filled ((name, o) :: slots) = (o.map fun v => (name, v)).toList ++ filled slots := rfl

theorem optStr_eq (name s : String) :
    optStr name s = ((optional s).map fun v => (name, v)).toList := by
  unfold optStr optional
  split <;> rfl

theorem ite_member (name : String) (p : Prop) [Decidable p] (v : Json) :
    (if p then [] else [(name, v)]) =
      ((if p then none else some v).map fun v => (name, v)).toList := by
  split <;> rfl

/-- Members whose names are apart from a name do not fill its field. -/
theorem filter_filled_of_apart {name : String} {slots : List (String × Option Json)}
    (h : ∀ s ∈ slots, Case.equalFold s.1 name = false) :
    (filled slots).filter (fun m => m.1 = name || Case.equalFold m.1 name) = [] := by
  rw [List.filter_eq_nil_iff]
  intro m hm
  obtain ⟨s, hs, hm⟩ := List.mem_flatMap.mp hm
  obtain ⟨v, -, rfl⟩ := Option.map_eq_some_iff.mp (Option.mem_toList.mp hm)
  have hne : s.1 ≠ name := by
    intro heq
    have hself := h s hs
    rw [heq, Case.equalFold_self] at hself
    cases hself
  simp [hne, h s hs]

variable {slots : List (String × Option Json)} {o : Option Json}

/-- A field reads as its slot says. -/
theorem field?_filled (hapart : (slots.map Prod.fst).Pairwise Apart) {name : String}
    (h : (name, o) ∈ slots) :
    (obj (filled slots)).field? name = o.filter fun v => !v.isNull := by
  have hfields : (obj (filled slots)).fields name = o.toList := by
    unfold fields members
    obtain ⟨front, back, rfl⟩ := List.append_of_mem h
    rw [List.map_append, List.map_cons, List.pairwise_append, List.pairwise_cons] at hapart
    obtain ⟨-, ⟨hback, -⟩, hfront⟩ := hapart
    have hnone : (filled front).filter (fun m => m.1 = name || Case.equalFold m.1 name) = [] :=
      filter_filled_of_apart fun s hs =>
        (hfront s.1 (List.mem_map_of_mem hs) name List.mem_cons_self).1
    have hnone' : (filled back).filter (fun m => m.1 = name || Case.equalFold m.1 name) = [] :=
      filter_filled_of_apart fun s hs => (hback s.1 (List.mem_map_of_mem hs)).2
    have hsplit : filled (front ++ (name, o) :: back) =
        filled front ++ ((o.map fun v => (name, v)).toList ++ filled back) := by
      rw [filled, List.flatMap_append, List.flatMap_cons]
      rfl
    rw [hsplit, List.filter_append, List.filter_append, hnone, hnone']
    cases o <;> simp
  unfold field?
  rw [hfields]
  cases o with
  | none => rfl
  | some v =>
      cases hv : v.isNull <;> simp [hv, Option.filter]

theorem textField_filled (hapart : (slots.map Prod.fst).Pairwise Apart) (name : String)
    {s : String} (h : (name, some (.str s)) ∈ slots) : (obj (filled slots)).textField name = some s := by
  rw [textField, field?_filled hapart h]
  rfl

theorem textField_filled_optional (hapart : (slots.map Prod.fst).Pairwise Apart) (name : String)
    {s : String} (h : (name, optional s) ∈ slots) : (obj (filled slots)).textField name = some s := by
  rw [textField, field?_filled hapart h, optional]
  split_ifs with hs
  · rw [hs]
    rfl
  · rfl

/-- An integer reads as it was written, unless it has more than 64 bits. -/
theorem eq_of_intField_filled (hapart : (slots.map Prod.fst).Pairwise Apart) {name : String}
    {n m : Int}
    (h : (name, some (.int n)) ∈ slots) (hm : (obj (filled slots)).intField name = some m) :
    m = n := by
  rw [intField, field?_filled hapart h] at hm
  have hint : (Json.int n).int? = some n := integer?_toString n
  obtain ⟨hval, -⟩ := Option.filter_eq_some_iff.mp hm
  rw [hint] at hval
  exact (Option.some.inj hval).symm

/-- An integer that is left out when it is zero reads as it was written. -/
theorem eq_of_intField_filled_ite (hapart : (slots.map Prod.fst).Pairwise Apart) {name : String}
    {n m : Int}
    (h : (name, if n = 0 then none else some (.int n)) ∈ slots)
    (hm : (obj (filled slots)).intField name = some m) : m = n := by
  by_cases hn : n = 0
  · rw [if_pos hn] at h
    rw [intField, field?_filled hapart h] at hm
    obtain rfl : (0 : Int) = m := Option.some.inj hm
    exact hn.symm
  · rw [if_neg hn] at h
    exact eq_of_intField_filled hapart h hm

/-- A list reads item by item, also when it is left out because it is empty. -/
theorem listField_filled {α : Type} (hapart : (slots.map Prod.fst).Pairwise Apart) {name : String}
    {l : List Json}
    (h : (name, some (.arr l)) ∈ slots ∨ l = [] ∧ (name, none) ∈ slots)
    (item : Json → Option α) :
    (obj (filled slots)).listField name item = l.mapM item := by
  rcases h with h | ⟨rfl, h⟩
  · rw [listField, field?_filled hapart h]
    rfl
  · rw [listField, field?_filled hapart h]
    rfl

end Filled

/-- Slots with the same names are found again in the members that they fill. -/
theorem filled_inj {slots slots' : List (String × Option Json)}
    (hnames : slots.map Prod.fst = slots'.map Prod.fst) (hnodup : (slots.map Prod.fst).Nodup)
    (h : filled slots = filled slots') : slots = slots' := by
  have hmem {l : List (String × Option Json)} {name : String} {v : Json}
      (hv : (name, v) ∈ filled l) : name ∈ l.map Prod.fst := by
    obtain ⟨s, hs, hv⟩ := List.mem_flatMap.mp hv
    obtain ⟨w, -, heq⟩ := Option.map_eq_some_iff.mp (Option.mem_toList.mp hv)
    exact List.mem_map.mpr ⟨s, hs, (Prod.mk.inj heq).1⟩
  induction slots generalizing slots' with
  | nil => exact (List.map_eq_nil_iff.mp hnames.symm).symm
  | cons s slots ih =>
      cases slots' with
      | nil => cases hnames
      | cons s' slots' =>
          obtain ⟨name, o⟩ := s
          obtain ⟨name', o'⟩ := s'
          obtain ⟨rfl, hrest⟩ := List.cons.inj hnames
          obtain ⟨hnew, htail⟩ := List.nodup_cons.mp hnodup
          have hnew' : name ∉ slots'.map Prod.fst := hrest ▸ hnew
          rw [filled_cons, filled_cons] at h
          cases o with
          | none =>
              cases o' with
              | none => rw [ih hrest htail h]
              | some v' =>
                  have hfill : (name, v') ∈ filled slots := by
                    rw [show filled slots = _ from h]
                    exact List.mem_cons_self
                  exact absurd (hmem hfill) hnew
          | some v =>
              cases o' with
              | none =>
                  have hfill : (name, v) ∈ filled slots' := by
                    rw [show filled slots' = _ from h.symm]
                    exact List.mem_cons_self
                  exact absurd (hmem hfill) hnew'
              | some v' =>
                  obtain ⟨hfirst, hlater⟩ := List.cons.inj h
                  rw [(Prod.mk.inj hfirst).2, ih hrest htail hlater]

theorem optional_inj {s s' : String} (h : optional s = optional s') : s = s' := by
  unfold optional at h
  split_ifs at h with hs hs'
  · rw [hs, hs']
  · exact str.inj (Option.some.inj h)

theorem exactMembers_append {ms ns : List (String × Json)} (hms : ExactMembers ms)
    (hns : ExactMembers ns) : ExactMembers (ms ++ ns) := by
  induction ms with
  | nil => exact hns
  | cons m ms ih => exact ⟨hms.1, ih hms.2⟩

/-- A record is exact if its fields are. -/
theorem exact_filled {slots : List (String × Option Json)}
    (h : ∀ s ∈ slots, ∀ v, s.2 = some v → Exact v) : Exact (obj (filled slots)) := by
  show ExactMembers (filled slots)
  induction slots with
  | nil => trivial
  | cons s slots ih =>
      rw [filled_cons]
      refine exactMembers_append ?_ (ih fun s hs => h s (List.mem_cons_of_mem _ hs))
      cases hs : s.2 with
      | none => trivial
      | some v => exact ⟨h s List.mem_cons_self v hs, trivial⟩

theorem exact_of_optional {s : String} {v : Json} (h : optional s = some v) : Exact v := by
  unfold optional at h
  split_ifs at h
  cases h
  trivial

theorem exact_arr_map {α : Type} {write : α → Json} {l : List α} (h : ∀ a ∈ l, Exact (write a)) :
    Exact (.arr (l.map write)) := by
  show ExactItems (l.map write)
  induction l with
  | nil => trivial
  | cons a l ih =>
      exact ⟨h a List.mem_cons_self, ih fun b hb => h b (List.mem_cons_of_mem _ hb)⟩

/-- What is read item by item from written items is what was written, if every single one is. -/
theorem eq_of_mapM_map {α : Type} {write : α → Json} {read : Json → Option α} {l l' : List α}
    (hread : ∀ a ∈ l, ∀ a', read (write a) = some a' → a' = a)
    (h : (l.map write).mapM read = some l') : l' = l := by
  induction l generalizing l' with
  | nil => simpa using h.symm
  | cons a l ih =>
      rw [List.map_cons, List.mapM_cons] at h
      obtain ⟨a', ha', h⟩ := Option.bind_eq_some_iff.mp h
      obtain ⟨rest, hrest, hl⟩ := Option.bind_eq_some_iff.mp h
      obtain rfl : a' :: rest = l' := Option.some.inj hl
      rw [hread a List.mem_cons_self a' ha',
        ih (fun b hb => hread b (List.mem_cons_of_mem _ hb)) hrest]

end Json

end InstallerLint
