import InstallerLint.Proofs.Document.Find
import InstallerLint.Proofs.Document.Starts
import InstallerLint.Proofs.Rule.Engine
import InstallerLint.Rule.Fix

/-!
# From a finding back to its element

A finding tells where its element starts, by line and column only.  In a document that was read
this is enough to find the element again (`nodeAt?_eq_some_iff`), so the remedy of a finding is
applied to the element that raised it (`preview_at_origin`).

**The remedy.**  An action asks for one edit (`FixAction.Asks`), which stays in its element
(`Fix.within_of_asks`); what is shown is the patch from the source to the source after that edit
(`Previews`).

**The search.**  It leaves out what is below an element that starts behind the line.  A walk that
refuses to go below some elements agrees with the full one up to the first of them
(`take_visit_agrees`); and since lines do not decrease in document order, no element in front of the
one looked for is refused.
-/

namespace InstallerLint

namespace Document

section Walk

variable {d : Document} {enter : Nat → Bool}

/-- A visit goes along with the full one until it has met an element that it does not enter. -/
theorem take_visit_agrees (fuel n : Nat) (stack : List Nat)
    (h : ∀ k ∈ (d.visit (fun _ => true) fuel stack).take n, enter k = true) :
    (d.visit (fun _ => true) fuel stack).take (n + 1) <+: d.visit enter fuel stack := by
  induction fuel generalizing n stack with
  | zero => simp [visit]
  | succ fuel ih =>
      cases stack with
      | nil => simp [visit]
      | cons id stack =>
          rw [visit, if_pos rfl] at h
          rw [visit, if_pos rfl, visit, List.take_succ_cons, List.cons_prefix_cons]
          refine ⟨rfl, ?_⟩
          cases n with
          | zero => exact List.nil_prefix
          | succ n =>
              rw [List.take_succ_cons] at h
              rw [if_pos (h id List.mem_cons_self)]
              exact ih n _ fun k hk => h k (List.mem_cons_of_mem _ hk)

/-- Only elements are met. -/
theorem Forest.lt_of_mem_visit (h : d.Forest) {fuel j : Nat} {stack : List Nat}
    (hstack : ∀ i ∈ stack, i < d.size) (hj : j ∈ d.visit enter fuel stack) : j < d.size := by
  induction fuel generalizing stack with
  | zero => cases hj
  | succ fuel ih =>
      cases stack with
      | nil => cases hj
      | cons id stack =>
          have hrest : ∀ i ∈ stack, i < d.size := fun i hi => hstack i (List.mem_cons_of_mem _ hi)
          rw [visit] at hj
          rcases List.mem_cons.mp hj with rfl | hj
          · exact hstack j List.mem_cons_self
          · refine ih (fun i hi => ?_) hj
            split_ifs at hi
            · rcases List.mem_append.mp hi with hi | hi
              · exact lt_size_of_parent? (h.child_iff.mp hi)
              · exact hrest i hi
            · exact hrest i hi

theorem Forest.lt_of_mem_walk (h : d.Forest) {j : Nat} (hj : j ∈ d.walk enter) : j < d.size := by
  unfold walk at hj
  split_ifs at hj with hsize
  · cases hj
  · refine h.lt_of_mem_visit (fun i hi => ?_) hj
    rw [List.mem_singleton.mp hi]
    omega

end Walk

section Search

variable {source : Bytes} {path : String} {d : Document}

/-- A walk through a document that was read meets an element if it enters all in front of it. -/
theorem mem_walk_of_entered (h : Document.parse source path = .ok d) {enter : Nat → Bool} {j : Nat}
    (hj : j < d.size) (henter : ∀ k < j, enter k = true) : j ∈ d.walk enter := by
  have hfull := ids_of_parse h
  have hsize : d.size ≠ 0 := by omega
  rw [ids, walk, if_neg hsize] at hfull
  rw [walk, if_neg hsize]
  refine (take_visit_agrees d.size j [0] fun k hk => henter k ?_).subset ?_
  · rw [hfull, List.take_range] at hk
    have := List.mem_range.mp hk
    omega
  · rw [hfull, List.take_range, List.mem_range]
    omega

theorem startsAt_iff {line col : Int} {id : Nat} :
    d.startsAt line col id = true ↔
      ((d.range id).startLine : Int) = line ∧ ((d.range id).startCol : Int) = col := by
  simp [startsAt]

/-- **The search finds exactly the element that starts at a place.** -/
theorem nodeAt?_eq_some_iff (h : Document.parse source path = .ok d) {line col : Int} {id : Nat} :
    d.nodeAt? line col = some id ↔ id < d.size ∧
      ((d.range id).startLine : Int) = line ∧ ((d.range id).startCol : Int) = col := by
  have hfound : ∀ {j : Nat}, d.nodeAt? line col = some j → j < d.size ∧
      ((d.range j).startLine : Int) = line ∧ ((d.range j).startCol : Int) = col := by
    intro j hj
    refine ⟨(forest_of_parse h).lt_of_mem_walk (List.mem_of_find?_eq_some hj), ?_⟩
    exact startsAt_iff.mp (List.find?_some hj)
  refine ⟨hfound, ?_⟩
  rintro ⟨hid, hline, hcol⟩
  have hmem : id ∈ d.walk fun k => decide (((d.range (k : Int)).startLine : Int) ≤ line) := by
    refine mem_walk_of_entered h hid fun k hk => decide_eq_true ?_
    rw [← hline]
    exact Int.ofNat_le.mpr (startLine_le h hk.le hid)
  have hsome : (d.nodeAt? line col).isSome = true :=
    List.find?_isSome.mpr ⟨id, hmem, startsAt_iff.mpr ⟨hline, hcol⟩⟩
  obtain ⟨j, hj⟩ := Option.isSome_iff_exists.mp hsome
  obtain ⟨hlt, hline', hcol'⟩ := hfound hj
  obtain rfl : j = id := start_injective h hlt hid
    (Int.ofNat.inj (hline'.trans hline.symm)) (Int.ofNat.inj (hcol'.trans hcol.symm))
  exact hj

end Search

end Document

namespace Engine

variable {d : Document} {rules : List Rule} {s : Selection} {m : Memo} {x : Diagnostic}

/-- Every finding that an engine lists was raised by one of its rules at an element. -/
theorem exists_origin (hd : d.Forest) (hm : m.Faithful) (hx : x ∈ ((new rules s).evaluate d m).1) :
    ∃ r ∈ rules, ∃ id < d.size, s.Fires d id r ∧ x = s.report d id r := by
  have hfound : x ∈ naive rules s d := by
    refine (emitted_perm_naive hd).subset ?_
    rw [← askAll_eq_emitted hm]
    refine (Diagnostic.sort_perm _).subset ?_
    change x ∈ Selection.cap _ _ at hx
    unfold Selection.cap at hx
    split_ifs at hx
    · exact List.mem_of_mem_take hx
    · exact hx
  obtain ⟨p, hp, rfl⟩ := List.mem_map.mp hfound
  obtain ⟨hpair, hfires⟩ := List.mem_filter.mp hp
  obtain ⟨hid, hr⟩ := List.mem_product.mp hpair
  exact ⟨p.2, hr, p.1, List.mem_range.mp hid, of_decide_eq_true hfires, rfl⟩

end Engine

/-! ### What a remedy changes -/

/-- An edit replaces bytes of an element only. -/
def Edit.Within (e : Edit) (s : Span) : Prop :=
  s.start ≤ e.start ∧ e.start ≤ e.stop ∧ e.stop ≤ s.stop

namespace Document

section Within

variable {d : Document} {id : Int} {s : Span} {e : Edit}

/-- A slice is not longer than the stretch it is taken from. -/
theorem length_slice_le (b : Bytes) (start stop : Nat) :
    (b.slice start stop).length ≤ stop - start := by
  rw [Bytes.slice, List.length_take]
  exact Nat.min_le_left _ _

theorem length_startTag_le (d : Document) (s : Span) :
    (d.startTag s).length ≤ s.tagEnd - s.start := length_slice_le ..

/-- The closing mark is a part of the start tag. -/
theorem start_le_closeOffset (h : s.Located d.source) :
    s.start ≤ closeOffset s ∧ closeOffset s ≤ s.tagEnd := by
  have hstart := h.start_lt
  unfold closeOffset
  split_ifs with hself
  · have hlen := (h.self_iff.mp hself).length_le
    have htag := length_startTag_le d s
    rw [startTag] at htag
    simp only [List.length_cons, List.length_nil] at hlen
    omega
  · omega

theorem start_le_insertOffset (h : s.Located d.source) :
    s.start ≤ d.insertOffset s ∧ d.insertOffset s ≤ s.tagEnd := by
  obtain ⟨hlow, hhigh⟩ := start_le_closeOffset h
  have hblanks := (List.takeWhile_prefix (l := (d.source.slice s.start (closeOffset s)).reverse)
    fun b => b == 0x20 || b == 0x09).length_le
  have hfront := length_slice_le d.source s.start (closeOffset s)
  rw [List.length_reverse] at hblanks
  unfold insertOffset
  dsimp only
  omega

/-- An edit of the start tag is an edit of the element. -/
theorem within_of_tag (hs : s.Located d.source) (hstart : s.start ≤ e.start)
    (hle : e.start ≤ e.stop) (hstop : e.stop ≤ s.tagEnd) : e.Within s :=
  ⟨hstart, hle, hstop.trans (hs.tagEnd_le.trans hs.innerEnd_le)⟩

/-- Opening a self-closing tag edits its closing mark only. -/
theorem within_opened (hs : s.Located d.source) (content : Bytes) : (d.opened s content).Within s :=
  within_of_tag hs (start_le_closeOffset hs).1 (start_le_closeOffset hs).2 le_rfl

/-- An attribute is found inside of its start tag. -/
theorem found_le (hs : s.Located d.source) {name : Bytes} {first value stop : Nat}
    (h : Tag.findAttribute name s.start (d.startTag s) = some (first, value, stop)) :
    s.start ≤ first ∧ first ≤ value ∧ value ≤ stop ∧ stop ≤ s.tagEnd := by
  have hle := Tag.findAttribute_le h
  have htag := length_startTag_le d s
  have hstart := hs.start_lt
  omega

variable (hspan : d.spanOf id = .ok s) (hs : s.Located d.source)

include hspan hs

theorem within_of_setAttr {name value : String} (h : d.setAttr id name value = .ok e) :
    e.Within s := by
  simp only [setAttr, hspan, bind, Except.bind] at h
  split at h
  · next hfound =>
      obtain ⟨hfirst, hvalue, hle, hstop⟩ := found_le hs hfound
      cases h
      exact within_of_tag hs (hfirst.trans hvalue) hle hstop
  · obtain ⟨hlow, hhigh⟩ := start_le_insertOffset hs
    cases h
    exact within_of_tag hs hlow le_rfl hhigh

theorem within_of_removeAttr {name : String} (h : d.removeAttr id name = .ok e) : e.Within s := by
  simp only [removeAttr, hspan, bind, Except.bind] at h
  split at h
  · next hfound =>
      obtain ⟨hfirst, hvalue, hle, hstop⟩ := found_le hs hfound
      cases h
      exact within_of_tag hs hfirst (hvalue.trans hle) hstop
  · cases h

theorem within_of_insertChild {markup : String} {first : Bool}
    (h : d.insertChild id markup first = .ok e) : e.Within s := by
  have hstart := hs.start_lt.le
  have htag := hs.tagEnd_le
  simp only [insertChild, hspan, bind, Except.bind] at h
  split_ifs at h
  · cases h
    exact within_opened hs _
  · cases h
    exact within_of_tag hs hstart le_rfl le_rfl
  · cases h
    exact ⟨hstart.trans htag, le_rfl, hs.innerEnd_le⟩

theorem within_of_remove (h : d.remove id = .ok e) : e.Within s := by
  simp only [remove, hspan, bind, Except.bind] at h
  cases h
  exact ⟨le_rfl, hs.start_lt.le.trans (hs.tagEnd_le.trans hs.innerEnd_le), le_rfl⟩

theorem within_of_replaceText {text : String} (h : d.replaceText id text = .ok e) : e.Within s := by
  simp only [replaceText, hspan, bind, Except.bind] at h
  split_ifs at h
  · cases h
    exact within_opened hs _
  · cases h
    exact ⟨hs.start_lt.le, hs.tagEnd_le, hs.innerEnd_le⟩

end Within

end Document

/-- The edit that an action asks for at an element. -/
inductive FixAction.Asks (d : Document) (id : Nat) (a : FixAction) : Except EditError Edit → Prop
  | setAttribute (h : a.kind = "add-attribute" ∨ a.kind = "replace-attribute") :
    Asks d id a (d.setAttr id a.name a.value)
  | removeAttribute (h : a.kind = "remove-attribute") : Asks d id a (d.removeAttr id a.name)
  | addElement (h : a.kind = "add-element") :
    Asks d id a (d.insertChild id (Markup.element a.element a.attributes) (a.position = "first"))
  | removeElement (h : a.kind = "remove-element") : Asks d id a (d.remove id)
  | replaceText (h : a.kind = "replace-text") : Asks d id a (d.replaceText id a.value)

namespace Fix

variable {f : Fix} {d : Document} {id : Nat} {edit : Except EditError Edit}

theorem editAt_of_asks (h : f.action.Asks d id edit) : f.editAt d id = edit.mapError .edit := by
  cases h with
  | setAttribute h => rcases h with h | h <;> simp only [editAt, h]
  | _ h => simp only [editAt, h]

theorem editAt_of_not_asks (h : ∀ edit, ¬ f.action.Asks d id edit) :
    f.editAt d id = .error (.unknownKind f.action.kind) := by
  unfold editAt
  dsimp only
  split
  · next hkind => exact absurd (.setAttribute (.inl hkind)) (h _)
  · next hkind => exact absurd (.setAttribute (.inr hkind)) (h _)
  · next hkind => exact absurd (.removeAttribute hkind) (h _)
  · next hkind => exact absurd (.addElement hkind) (h _)
  · next hkind => exact absurd (.removeElement hkind) (h _)
  · next hkind => exact absurd (.replaceText hkind) (h _)
  · rfl

/-- What an action asks for stays in the element. -/
theorem within_of_asks {s : Span} {e : Edit} (h : f.action.Asks d id (.ok e))
    (hspan : d.spanOf id = .ok s) (hs : s.Located d.source) : e.Within s := by
  generalize hedit : (.ok e : Except EditError Edit) = edit at h
  cases h with
  | setAttribute _ => exact Document.within_of_setAttr hspan hs hedit.symm
  | removeAttribute _ => exact Document.within_of_removeAttr hspan hs hedit.symm
  | addElement _ => exact Document.within_of_insertChild hspan hs hedit.symm
  | removeElement _ => exact Document.within_of_remove hspan hs hedit.symm
  | replaceText _ => exact Document.within_of_replaceText hspan hs hedit.symm

end Fix

namespace Diagnostic

/-- What is shown for a remedy at an element: the patch from the source to the source with the edit
that the remedy asks for, which stays in the element; or why there is no such edit. -/
structure Previews (f : Fix) (d : Document) (id : Nat) (shown : Except FixError Bytes) : Prop where
  patch : ∀ e, f.action.Asks d id (.ok e) →
    shown = .ok (Diff.unified ("a/" ++ d.path) ("b/" ++ d.path) d.source
      (d.source.take e.start ++ e.text ++ d.source.drop e.stop) 0 0).1
  within : ∀ e, f.action.Asks d id (.ok e) → ∃ s, d.spanOf id = .ok s ∧ e.Within s
  refused : ∀ err, f.action.Asks d id (.error err) → shown = .error (.edit err)
  unknown : (∀ edit, ¬ f.action.Asks d id edit) → shown = .error (.unknownKind f.action.kind)

theorem previews_preview {d : Document} {id : Nat} (f : Fix) {s : Span}
    (hspan : d.spanOf id = .ok s) (hs : s.Located d.source) : Previews f d id (f.preview d id) := by
  refine ⟨fun e he => ?_, fun e he => ⟨s, hspan, Fix.within_of_asks he hspan hs⟩, fun err he => ?_,
    fun h => ?_⟩
  · rw [Fix.preview, Fix.apply, Fix.editAt_of_asks he]
    rfl
  · rw [Fix.preview, Fix.apply, Fix.editAt_of_asks he]
    rfl
  · rw [Fix.preview, Fix.apply, Fix.editAt_of_not_asks h]
    rfl

/-- **The place of a finding leads back to its element.**  In a document that was read, the search
finds each element where it starts, and nothing where none starts.  So whatever an engine finds in
it, what is shown for the finding is the remedy of its rule, applied to the element that raised
it; without a remedy nothing is shown. -/
theorem preview_at_origin {source : Bytes} {path : String} {d : Document}
    (h : Document.parse source path = .ok d) :
    (∀ id < d.size, d.nodeAt? (d.range id).startLine (d.range id).startCol = some id) ∧
    (∀ line col : Int, (d.nodeAt? line col).isSome = true ↔ ∃ id < d.size,
      ((d.range id).startLine : Int) = line ∧ ((d.range id).startCol : Int) = col) ∧
    (∀ (line col : Int) (id : Nat), d.nodeAt? line col = some id → id < d.size ∧
      ((d.range id).startLine : Int) = line ∧ ((d.range id).startCol : Int) = col) ∧
    ∀ (rules : List Rule) (s : Selection) (m : Memo), m.Faithful →
      ∀ x ∈ ((Engine.new rules s).evaluate d m).1, ∃ r ∈ rules, ∃ id < d.size,
        s.Fires d id r ∧ x = s.report d id r ∧
          d.nodeAt? x.location.line x.location.col = some id ∧
          (r.fix = none → x.preview d = .ok []) ∧
          ∀ f, r.fix = some f → Previews f d id (x.preview d) := by
  have hat : ∀ id < d.size, d.nodeAt? (d.range id).startLine (d.range id).startCol = some id :=
    fun id hid => (Document.nodeAt?_eq_some_iff h).mpr ⟨hid, rfl, rfl⟩
  refine ⟨hat, fun line col => ?_, fun line col id => (Document.nodeAt?_eq_some_iff h).mp,
    fun rules s m hm x hx => ?_⟩
  · rw [Option.isSome_iff_exists]
    exact exists_congr fun id => Document.nodeAt?_eq_some_iff h
  · obtain ⟨r, hr, id, hid, hfires, rfl⟩ :=
      Engine.exists_origin (Document.forest_of_parse h) hm hx
    have hback : d.nodeAt? (s.report d id r).location.line (s.report d id r).location.col =
        some id := hat id hid
    have hfix : (s.report d id r).fix = r.fix := rfl
    obtain ⟨span, hspan, hlocated⟩ := (Document.isLocated_of_parse h).located id hid
    refine ⟨r, hr, id, hid, hfires, rfl, hback, fun hnone => ?_, fun f hsome => ?_⟩
    · rw [preview, hfix, hnone]
    · have hshown : (s.report d id r).preview d = f.preview d id := by
        rw [preview, hfix, hsome, hback]
      rw [hshown]
      exact previews_preview f hspan hlocated

/-- The finding at the inner element of `<a><b/></a>`, and the patch that adds the attribute its
remedy asks for. -/
theorem preview_at_origin_inner :
    let fix : Fix := ⟨"", ⟨"add-attribute", "Id", "x", "", [], ""⟩⟩
    let rules : List Rule := [{ id := "r", element := "b", message := "m", fix := some fix }]
    ∃ d x, Document.parse (Bytes.ofString "<a><b/></a>") "x.wxs" = .ok d ∧ d.nodeAt? 1 4 = some 1 ∧
      ((Engine.new rules {}).evaluate d []).1 = [x] ∧
      x.preview d = .ok (Diff.unified "a/x.wxs" "b/x.wxs" (Bytes.ofString "<a><b/></a>")
        (Bytes.ofString "<a><b Id=\"x\"/></a>") 0 0).1 := by
  intro fix rules
  have ha : Xml.IsPlainName "a" := Xml.isPlainName_of_letters rfl (by decide)
  have hb : Xml.IsPlainName "b" := Xml.isPlainName_of_letters rfl (by decide)
  let outer := Xml.WrittenTag.bare ha false
  let c : Xml.Content :=
    .element outer rfl (.closed (.bare hb true) rfl .done) outer.endTag rfl .done
  obtain ⟨d, x, hparse, hpath, hsource, hsize, hkind, hline, hcol, hedit, hasked⟩ : ∃ d x,
      Document.parse (Bytes.ofString "<a><b/></a>") "x.wxs" = .ok d ∧ d.path = "x.wxs" ∧
        d.source = Bytes.ofString "<a><b/></a>" ∧ d.size = 2 ∧ d.kind 0 = "a" ∧
        (d.range 1).startLine = 1 ∧ (d.range 1).startCol = 4 ∧
        d.setAttr (1 : Nat) "Id" "x" = .ok ⟨5, 5, Bytes.ofString " Id=\"x\""⟩ ∧
        ((Engine.new rules {}).askAll d d.ids []).1 = [x] :=
    ⟨_, _, Document.parse_eq_ok.mpr ⟨c, _, rfl,
      ⟨by simp [c, Xml.Apart, Xml.Content.pieces, Xml.Piece.isBare], rfl, rfl⟩, rfl⟩,
      rfl, rfl, rfl, rfl, rfl, rfl, by rfl, by rfl⟩
  have hfound : ((Engine.new rules {}).evaluate d []).1 = [x] := by
    change Selection.cap 0 (Diagnostic.sort ((Engine.new rules {}).askAll d d.ids []).1) = [x]
    rw [hasked, Diagnostic.sort, List.mergeSort_singleton]
    rfl
  obtain ⟨hat, -, -, hpreview⟩ := preview_at_origin hparse
  have hnode : d.nodeAt? 1 4 = some 1 := by
    have hnode := hat 1 (by omega)
    rwa [show d.range ((1 : Nat) : Int) = d.range 1 from rfl, hline, hcol] at hnode
  refine ⟨d, x, hparse, hnode, hfound, ?_⟩
  obtain ⟨r, hr, id, hid, hfires, -, -, -, hshown⟩ :=
    hpreview rules {} [] Memo.faithful_nil x (by rw [hfound]; exact List.mem_singleton_self x)
  obtain rfl := List.mem_singleton.mp hr
  have hcases : id = 0 ∨ id = 1 := by omega
  rcases hcases with rfl | rfl
  · have htargets := hfires.targets
    rw [show d.kind ((0 : Nat) : Int) = d.kind 0 from rfl, hkind] at htargets
    cases htargets
  · have hasks : fix.action.Asks d 1 (.ok ⟨5, 5, Bytes.ofString " Id=\"x\""⟩) :=
      hedit ▸ .setAttribute (.inl rfl)
    rw [(hshown fix rfl).patch _ hasks, hpath, hsource]
    rfl

end Diagnostic

end InstallerLint
