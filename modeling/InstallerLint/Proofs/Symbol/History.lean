import InstallerLint.Proofs.Document.Change
import InstallerLint.Proofs.Order
import InstallerLint.Proofs.Symbol.Documents
import Mathlib.Data.List.Induction

/-!
# A symbol index does not remember its history

Files are read into an index again and again, and definitions that no source holds are added in
between.  The index that results is the one of a much shorter history: every added definition,
and of each file only the last reading that succeeded (`replay_kept`).

**Why.**  After any history the index holds the definitions and references of the steps that are
kept, in their order (`replay_reflects`).  Two indexes that hold the same lists answer every
question alike, and their digests are equal (`Holds.digest_eq`).
-/

namespace InstallerLint

/-- Something done to a symbol index. -/
inductive IndexStep where
  /-- A text is read in place of the symbols of its file, if it is a document. -/
  | source (text : Bytes) (file : String)
  /-- A document is read in place of the symbols of its file. -/
  | document (d : Document)
  /-- A definition that no source holds is added. -/
  | define (id kind detail : String)

namespace IndexStep

/-- The document that a step reads; a text that is malformed is none. -/
def document? : IndexStep → Option Document
  | source text file => (Document.parse text file).toOption
  | document d => some d
  | define .. => none

/-- Does a step. -/
def apply (ix : SymbolIndex) : IndexStep → SymbolIndex
  | source text file =>
    match ix.addSource text file with
    | .ok ix => ix
    | .error _ => ix
  | document d => ix.addDocument d
  | define id kind detail => ix.inject id kind detail

/-- Whether a step reads a file. -/
def reads (file : String) (s : IndexStep) : Bool := (s.document?.map (·.path)) = some file

/-- Whether a step still counts after later ones: it adds a definition, or it reads a document
whose file is not read later. -/
def counts (later : List IndexStep) : IndexStep → Bool
  | define .. => true
  | s =>
    match s.document? with
    | some d => !later.any (reads d.path)
    | none => false

/-- The definitions that a step brings. -/
def defs : IndexStep → List Definition
  | define id kind detail => [⟨id, kind, ⟨Definition.builtinFile, 0, 0, 0, 0⟩, detail⟩]
  | s => (s.document?.map (·.definitions)).getD []

/-- The references that a step brings. -/
def refs (s : IndexStep) : List Reference := (s.document?.map (·.references)).getD []

/-- The file that a step reads. -/
def files (s : IndexStep) : List String := (s.document?.map (·.path)).toList

theorem path_of_document? {text : Bytes} {file : String} {d : Document}
    (h : (source text file).document? = some d) : d.path = file := by
  simp only [document?] at h
  cases hp : Document.parse text file with
  | error e => simp [hp, Except.toOption] at h
  | ok e =>
      rw [hp] at h
      cases h
      exact Document.path_of_parse hp

theorem counts_of_document {s : IndexStep} {d : Document} (h : s.document? = some d)
    (later : List IndexStep) : s.counts later = !later.any (reads d.path) := by
  cases s with
  | define => cases h
  | document e => simp only [counts, h]
  | source text file => simp only [counts, h]

theorem defs_of_document {s : IndexStep} {d : Document} (h : s.document? = some d) :
    s.defs = d.definitions := by
  cases s with
  | define => cases h
  | document e => simp only [defs, h, Option.map_some, Option.getD_some]
  | source text file => simp only [defs, h, Option.map_some, Option.getD_some]

theorem refs_of_document {s : IndexStep} {d : Document} (h : s.document? = some d) :
    s.refs = d.references := by
  simp only [refs, h, Option.map_some, Option.getD_some]

/-- A step that counts and reads nothing adds a definition. -/
theorem isDefine_of_counts {s : IndexStep} {later : List IndexStep} (hs : s.counts later = true)
    (hd : s.document? = none) : ∃ id kind detail, s = define id kind detail := by
  cases s with
  | define id kind detail => exact ⟨id, kind, detail, rfl⟩
  | document e => cases hd
  | source text file => simp [counts, hd] at hs

/-- What counts after some steps counts after fewer of them. -/
theorem counts_of_subset {l l' : List IndexStep} (h : l ⊆ l') {s : IndexStep}
    (hs : s.counts l' = true) : s.counts l = true := by
  cases hd : s.document? with
  | none =>
      obtain ⟨id, kind, detail, rfl⟩ := isDefine_of_counts hs hd
      rfl
  | some d =>
      rw [counts_of_document hd, Bool.not_eq_true', List.any_eq_false] at *
      exact fun t ht => hs t (h ht)

theorem counts_append (l l' : List IndexStep) (s : IndexStep) :
    s.counts (l ++ l') = (s.counts l && s.counts l') := by
  cases hd : s.document? with
  | none =>
      cases s with
      | define => rfl
      | document e => cases hd
      | source text file => simp [counts, hd]
  | some d => simp [counts_of_document hd]

end IndexStep

namespace SymbolIndex

/-- The index after steps on an empty one. -/
def replay (steps : List IndexStep) : SymbolIndex := steps.foldl IndexStep.apply {}

/-- The steps that still count: all added definitions, and of each file the last reading that
succeeded. -/
def kept : List IndexStep → List IndexStep
  | [] => []
  | s :: later => if s.counts later then s :: kept later else kept later

section Kept

theorem kept_append (l l' : List IndexStep) :
    kept (l ++ l') = (kept l).filter (fun s => s.counts l') ++ kept l' := by
  induction l with
  | nil => rfl
  | cons s l ih =>
      rw [List.cons_append, kept, IndexStep.counts_append, ih, kept]
      cases hl : s.counts l with
      | false => simp
      | true => cases hl' : s.counts l' <;> simp [hl']

theorem kept_sublist (l : List IndexStep) : (kept l).Sublist l := by
  induction l with
  | nil => exact List.Sublist.refl _
  | cons s l ih =>
      unfold kept
      split_ifs
      · exact ih.cons_cons s
      · exact ih.cons s

theorem counts_of_mem_kept {l : List IndexStep} {s : IndexStep} (h : s ∈ kept l) :
    s.counts [] = true := by
  induction l with
  | nil => cases h
  | cons t l ih =>
      unfold kept at h
      split_ifs at h with ht
      · rcases List.mem_cons.mp h with rfl | h
        · exact IndexStep.counts_of_subset (List.nil_subset l) ht
        · exact ih h
      · exact ih h

theorem kept_kept (l : List IndexStep) : kept (kept l) = kept l := by
  induction l with
  | nil => rfl
  | cons s l ih =>
      by_cases hs : s.counts l = true
      · have hk : s.counts (kept l) = true := IndexStep.counts_of_subset (kept_sublist l).subset hs
        rw [kept, if_pos hs, kept, if_pos hk, ih]
      · rw [kept, if_neg hs, ih]

end Kept

section Symbols

/-- No step reads a file under the name of definitions that no source holds. -/
def AvoidsBuiltin (steps : List IndexStep) : Prop :=
  ∀ s ∈ steps, ∀ d, s.document? = some d → d.path ≠ Definition.builtinFile

theorem mem_files {steps : List IndexStep} {s : IndexStep} {d : Document} (hs : s ∈ steps)
    (hd : s.document? = some d) : d.path ∈ steps.flatMap IndexStep.files :=
  List.mem_flatMap.mpr ⟨s, hs, by simp [IndexStep.files, hd]⟩

/-- A definition that steps bring stands in a file they read, or in none. -/
theorem file_of_mem_defs {steps : List IndexStep} {x : Definition}
    (h : x ∈ steps.flatMap IndexStep.defs) :
    x.location.file = Definition.builtinFile ∨ x.location.file ∈ steps.flatMap IndexStep.files := by
  obtain ⟨s, hs, hx⟩ := List.mem_flatMap.mp h
  cases hd : s.document? with
  | none =>
      cases s with
      | define =>
          rw [List.mem_singleton.mp hx]
          exact Or.inl rfl
      | document e => cases hd
      | source text file => simp [IndexStep.defs, hd] at hx
  | some d =>
      rw [IndexStep.defs_of_document hd] at hx
      rw [Document.file_of_mem_definitions hx]
      exact Or.inr (mem_files hs hd)

/-- A reference that steps bring stands in a file they read. -/
theorem file_of_mem_refs {steps : List IndexStep} {x : Reference}
    (h : x ∈ steps.flatMap IndexStep.refs) : x.location.file ∈ steps.flatMap IndexStep.files := by
  obtain ⟨s, hs, hx⟩ := List.mem_flatMap.mp h
  cases hd : s.document? with
  | none => simp [IndexStep.refs, hd] at hx
  | some d =>
      rw [IndexStep.refs_of_document hd] at hx
      rw [Document.file_of_mem_references hx]
      exact mem_files hs hd

/-- A step that reads nothing undoes nothing. -/
theorem counts_of_no_document {s t : IndexStep} (hs : s.document? = none)
    (ht : t.counts [] = true) : t.counts [s] = true := by
  cases hd : t.document? with
  | none =>
      obtain ⟨id, kind, detail, rfl⟩ := IndexStep.isDefine_of_counts ht hd
      rfl
  | some e => simp [IndexStep.counts_of_document hd, IndexStep.reads, hs]

/-- The steps that survive one that reads `d` bring what stands in other files. -/
theorem flatMap_survivors {β : Type} {steps : List IndexStep} {s : IndexStep} {d : Document}
    (hs : s.document? = some d) (hcount : ∀ t ∈ steps, t.counts [] = true)
    (bring : IndexStep → List β) (file : β → String)
    (hread : ∀ t e, t.document? = some e → ∀ x ∈ bring t, file x = e.path)
    (hadd : ∀ id kind detail, ∀ x ∈ bring (.define id kind detail), file x ≠ d.path) :
    (steps.filter fun t => t.counts [s]).flatMap bring =
      (steps.flatMap bring).filter fun x => file x ≠ d.path := by
  induction steps with
  | nil => rfl
  | cons t steps ih =>
      have ih := ih fun u hu => hcount u (List.mem_cons_of_mem _ hu)
      rw [List.flatMap_cons, List.filter_append, ← ih, List.filter_cons]
      have hkeep : (∀ x ∈ bring t, file x ≠ d.path) →
          ((bring t).filter fun x => file x ≠ d.path) = bring t := by
        intro h
        rw [List.filter_eq_self]
        exact fun x hx => by simpa using h x hx
      cases ht : t.document? with
      | none =>
          obtain ⟨id, kind, detail, rfl⟩ :=
            IndexStep.isDefine_of_counts (hcount t List.mem_cons_self) ht
          rw [hkeep (hadd id kind detail)]
          rfl
      | some e =>
          rw [IndexStep.counts_of_document ht]
          by_cases he : e.path = d.path
          · have hnone : ((bring t).filter fun x => file x ≠ d.path) = [] := by
              rw [List.filter_eq_nil_iff]
              exact fun x hx => by simp [hread t e ht x hx, he]
            rw [hnone, if_neg (by simp [IndexStep.reads, hs, he]), List.nil_append]
          · rw [hkeep fun x hx => by rw [hread t e ht x hx]; exact he,
              if_pos (by simp [IndexStep.reads, hs, Ne.symm he]), List.flatMap_cons]

theorem survivors_of_no_document {steps : List IndexStep} {s : IndexStep}
    (hs : s.document? = none) (hcount : ∀ t ∈ steps, t.counts [] = true) :
    (steps.filter fun t => t.counts [s]) = steps := by
  rw [List.filter_eq_self]
  exact fun t ht => counts_of_no_document hs (hcount t ht)

end Symbols

section Replay

theorem apply_of_document {ix : SymbolIndex} {s : IndexStep} {d : Document}
    (hs : s.document? = some d) : s.apply ix = ix.addDocument d := by
  cases s with
  | define => cases hs
  | document e =>
      cases hs
      rfl
  | source text file =>
      cases hp : Document.parse text file with
      | error e => simp [IndexStep.document?, hp, Except.toOption] at hs
      | ok e =>
          have hde : e = d := by simpa [IndexStep.document?, hp, Except.toOption] using hs
          simp [IndexStep.apply, addSource, hp, Except.map, hde]

theorem apply_of_malformed {ix : SymbolIndex} {text : Bytes} {file : String}
    (hs : (IndexStep.source text file).document? = none) :
    (IndexStep.source text file).apply ix = ix := by
  cases hp : Document.parse text file with
  | error e => simp [IndexStep.apply, addSource, hp, Except.map]
  | ok e => simp [IndexStep.document?, hp, Except.toOption] at hs

/-- What an index is after steps: the symbols and files of `steps`, in order. -/
structure Reflects (ix : SymbolIndex) (steps : List IndexStep) : Prop where
  /-- It holds their definitions and references. -/
  holds : Holds ix (steps.flatMap IndexStep.defs) (steps.flatMap IndexStep.refs)
  files : ix.files = steps.flatMap IndexStep.files

/-- One step more: what it undoes goes, and what it brings comes last. -/
theorem Reflects.apply {ix : SymbolIndex} {steps : List IndexStep} (h : Reflects ix steps)
    (hcount : ∀ t ∈ steps, t.counts [] = true) {s : IndexStep}
    (hs : ∀ d, s.document? = some d → d.path ≠ Definition.builtinFile) :
    Reflects (s.apply ix) ((steps.filter fun t => t.counts [s]) ++ kept [s]) := by
  cases hd : s.document? with
  | none =>
      rw [survivors_of_no_document hd hcount]
      cases s with
      | document e => cases hd
      | source text file =>
          have hk : kept [IndexStep.source text file] = [] := by
            simp [kept, IndexStep.counts, hd]
          rw [hk, List.append_nil, apply_of_malformed hd]
          exact h
      | define id kind detail =>
          have hk : kept [IndexStep.define id kind detail] = [.define id kind detail] := rfl
          rw [hk]
          refine ⟨?_, ?_⟩
          · simpa [IndexStep.apply, inject, IndexStep.defs, IndexStep.refs, IndexStep.document?] using
              h.holds.addDefinition _
          · simpa [IndexStep.files, IndexStep.document?, IndexStep.apply, inject] using h.files
  | some d =>
      have hb := hs d hd
      have hk : kept [s] = [s] := by
        simp [kept, IndexStep.counts_of_document hd]
      have hdefs : (steps.filter fun t => t.counts [s]).flatMap IndexStep.defs =
          (steps.flatMap IndexStep.defs).filter (isOutside d.path) :=
        flatMap_survivors hd hcount IndexStep.defs (·.location.file)
          (fun t e ht x hx => by
            rw [IndexStep.defs_of_document ht] at hx
            exact Document.file_of_mem_definitions hx)
          (fun id kind detail x hx => by
            rw [List.mem_singleton.mp hx]
            exact Ne.symm hb)
      have hrefs := flatMap_survivors hd hcount IndexStep.refs (·.location.file)
        (fun t e ht x hx => by
          rw [IndexStep.refs_of_document ht] at hx
          exact Document.file_of_mem_references hx)
        (fun id kind detail x hx => by cases hx)
      have hfiles := flatMap_survivors hd hcount IndexStep.files id
        (fun t e ht x hx => by simpa [IndexStep.files, ht] using hx)
        (fun id kind detail x hx => by cases hx)
      rw [apply_of_document hd, hk]
      refine ⟨?_, ?_⟩
      · rw [List.flatMap_append, List.flatMap_append, hdefs, hrefs]
        have := h.holds.addDocument (d := d)
          (fun hnot x hx => by
            rcases file_of_mem_defs hx with hx | hx
            · rw [hx]
              exact Ne.symm hb
            · rw [← h.files] at hx
              exact fun he => hnot (he ▸ hx))
          (fun hnot r hr => by
            have hr := file_of_mem_refs hr
            rw [← h.files] at hr
            exact fun he => hnot (he ▸ hr))
        simpa [IndexStep.defs_of_document hd, IndexStep.refs_of_document hd] using this
      · rw [files_addDocument, List.flatMap_append, hfiles, h.files]
        simp [IndexStep.files, hd]

/-- After any history the index is that of the steps which still count. -/
theorem replay_reflects {steps : List IndexStep} (h : AvoidsBuiltin steps) :
    Reflects (replay steps) (kept steps) := by
  induction steps using List.reverseRecOn with
  | nil => exact ⟨holds_empty, rfl⟩
  | append_singleton steps s ih =>
      have hinit : AvoidsBuiltin steps := fun t ht => h t (List.mem_append_left _ ht)
      have hlast := h s (List.mem_append_right _ (List.mem_singleton.mpr rfl))
      have := (ih hinit).apply (fun t ht => counts_of_mem_kept ht) hlast
      rw [kept_append]
      simpa [replay] using this

/-- **History independence.**  An index answers every question as one on which only the kept
steps were done. -/
theorem replay_kept (steps : List IndexStep) (h : AvoidsBuiltin steps) :
    (∀ k, (replay steps).find? k = (replay (kept steps)).find? k) ∧
    (∀ k, (replay steps).refsTo k = (replay (kept steps)).refsTo k) ∧
    (replay steps).dups = (replay (kept steps)).dups ∧
    (replay steps).fileNames = (replay (kept steps)).fileNames ∧
    (replay steps).definitionCount = (replay (kept steps)).definitionCount ∧
    (replay steps).referenceCount = (replay (kept steps)).referenceCount ∧
    (replay steps).digest = (replay (kept steps)).digest := by
  have hkept : AvoidsBuiltin (kept steps) := fun s hs => h s ((kept_sublist steps).subset hs)
  obtain ⟨hall, hfiles⟩ := replay_reflects h
  obtain ⟨hshort, hfiles'⟩ := replay_reflects hkept
  rw [kept_kept] at hshort hfiles'
  refine ⟨fun k => ?_, fun k => ?_, ?_, ?_, ?_, ?_, ?_⟩
  · rw [hall.find, hshort.find]
  · rw [hall.refsTo, hshort.refsTo]
  · rw [hall.dups, hshort.dups]
  · rw [fileNames, fileNames, hfiles, hfiles']
  · exact (hall.defs_perm hshort).length_eq
  · exact hall.referenceCount_eq hshort
  · exact hall.digest_eq hshort

/-- The reading of a file that holds one element. -/
def rereadAs (kind file : String) : IndexStep :=
  .source (Bytes.ofString (Markup.element kind [⟨"Id", "X"⟩])) file

/-- Two files that define one id; the first is read again, once with a fault and once without. -/
def rereading : List IndexStep := [
  rereadAs "Component" "a.wxs", rereadAs "ComponentGroup" "b.wxs", .define "X" "Component" "",
  .source (Bytes.ofString "<a") "a.wxs", rereadAs "ComponentRef" "a.wxs"]

/-- The first reading and the faulty one do not count any more; the definition of the second file
and the added one are duplicates. -/
theorem replay_kept_rereading :
    AvoidsBuiltin rereading ∧
      kept rereading = [rereadAs "ComponentGroup" "b.wxs", .define "X" "Component" "",
        rereadAs "ComponentRef" "a.wxs"] ∧
      (replay rereading).dups.length = 1 ∧
      (replay rereading).digest = (replay (kept rereading)).digest := by
  have hread : ∀ {kind : String}, Xml.IsPlainName kind → ∀ file,
      (rereadAs kind file).document? = some (.lone kind "X" file) := by
    intro kind hkind file
    rw [rereadAs, IndexStep.document?,
      Document.parse_lone hkind (List.all_eq_true.mp (by decide)) file]
    rfl
  have hfirst : (rereadAs "Component" "a.wxs").document? = _ :=
    hread (Xml.isPlainName_of_letters rfl (by decide)) _
  have hsecond : (rereadAs "ComponentGroup" "b.wxs").document? = _ :=
    hread (Xml.isPlainName_of_letters rfl (by decide)) _
  have hlast : (rereadAs "ComponentRef" "a.wxs").document? = _ :=
    hread (Xml.isPlainName_of_letters rfl (by decide)) _
  have hfault : (IndexStep.source (Bytes.ofString "<a") "a.wxs").document? = none := rfl
  have h : AvoidsBuiltin rereading := by
    intro s hs d hd
    have hfile : ∀ text file, s = .source text file → file ≠ Definition.builtinFile →
        d.path ≠ Definition.builtinFile := by
      rintro text file rfl hne
      rwa [IndexStep.path_of_document? hd]
    simp only [rereading, List.mem_cons, List.not_mem_nil, or_false] at hs
    rcases hs with hs | hs | hs | hs | hs
    · exact hfile _ _ hs (by decide)
    · exact hfile _ _ hs (by decide)
    · rw [hs] at hd
      cases hd
    · exact hfile _ _ hs (by decide)
    · exact hfile _ _ hs (by decide)
  have hkept : kept rereading = [rereadAs "ComponentGroup" "b.wxs", .define "X" "Component" "",
      rereadAs "ComponentRef" "a.wxs"] := by
    have hdefine : (IndexStep.define "X" "Component" "").document? = none := rfl
    have hpath : ∀ kind path, (Document.lone kind "X" path).path = path := fun _ _ => rfl
    have hadded : ∀ later, IndexStep.counts later (.define "X" "Component" "") = true := fun _ => rfl
    have hdropped : IndexStep.counts [rereadAs "ComponentRef" "a.wxs"]
        (.source (Bytes.ofString "<a") "a.wxs") = false := by
      rw [IndexStep.counts, hfault]
      exact nofun
    simp [rereading, kept, IndexStep.counts_of_document hfirst,
      IndexStep.counts_of_document hsecond, IndexStep.counts_of_document hlast, hdropped, hadded,
      IndexStep.reads, hsecond, hlast, hfault, hdefine, hpath]
  obtain ⟨-, -, hdups, -, -, -, hdigest⟩ := replay_kept rereading h
  refine ⟨h, hkept, ?_, hdigest⟩
  rw [hdups, hkept, replay, List.foldl_cons, List.foldl_cons, List.foldl_cons, List.foldl_nil,
    apply_of_document hsecond, apply_of_document hlast]
  decide +kernel

end Replay

end SymbolIndex

end InstallerLint
