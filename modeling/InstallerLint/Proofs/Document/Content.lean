import InstallerLint.Document.Parse
import InstallerLint.Proofs.Xml.Pieces

/-!
# The content of elements

What stands between two tags is a row of leaves and elements.  `Content` is such a row with all its
bytes: its pieces are the text, its elements are the tree.

**Reading.**  Taking in the pieces of a content adds its elements and its character data to the open
element (`run_pieces`); pieces that close what they open are a content (`exists_content`).  So a
text is read as a tree exactly when it is the text of a content with one element and nothing but
blanks around it (`readTree_eq_ok`).
-/

namespace InstallerLint
namespace Xml

namespace Piece

/-- Pieces that are no tags. -/
def isLeaf : Piece → Bool
  | start _ => false
  | stop _ => false
  | _ => true

/-- The character data of a piece. -/
def chars : Piece → String
  | bare _ s _ _ => s
  | data _ s _ => s
  | _ => ""

end Piece

/-- The attributes of a tag as they are kept. -/
def Scope.kept (scope : Scope) (attrs : List TagAttr) : List Attribute :=
  attrs.map fun a => ⟨(scope.declare attrs).attrName a.name, a.value⟩

/-- A row of leaves and elements. -/
inductive Content where
  | done
  /-- A leaf first. -/
  | leaf (p : Piece) (isLeaf : p.isLeaf = true) (next : Content)
  /-- An element that closes itself first. -/
  | closed (t : WrittenTag) (self : t.selfClosing = true) (next : Content)
  /-- An element with an end tag first. -/
  | element (t : WrittenTag) (self : t.selfClosing = false) (inner : Content) (e : WrittenEnd)
      (same : e.qname = t.qname) (next : Content)

namespace Content

/-- The pieces in order. -/
def pieces : Content → List Piece
  | done => []
  | leaf p _ next => p :: next.pieces
  | closed t _ next => .start t :: next.pieces
  | element t _ inner e _ next => .start t :: (inner.pieces ++ .stop e :: next.pieces)

/-- How a content is written. -/
def bytes (c : Content) : Bytes := written c.pieces

/-- The character data outside of the elements. -/
def chars : Content → String
  | done => ""
  | leaf p _ next => p.chars ++ next.chars
  | closed _ _ next => next.chars
  | element _ _ _ _ _ next => next.chars

/-- The elements, with their offsets when the content starts at `offset`. -/
def elements (scope : Scope) (offset : Nat) : Content → List Element
  | done => []
  | leaf p _ next => next.elements scope (offset + p.bytes.length)
  | closed t _ next =>
      let stop := offset + t.bytes.length
      .mk ⟨t.qname.part, scope.kept t.tagAttrs, ⟨offset, stop, stop, stop, true⟩, Blank.trim ""⟩ []
        :: next.elements scope stop
  | element t _ inner e _ next =>
      let tagEnd := offset + t.bytes.length
      let innerEnd := tagEnd + inner.bytes.length
      let stop := innerEnd + e.bytes.length
      .mk ⟨t.qname.part, scope.kept t.tagAttrs, ⟨offset, tagEnd, innerEnd, stop, false⟩,
          Blank.trim inner.chars⟩ (inner.elements (scope.declare t.tagAttrs) tagEnd)
        :: next.elements scope stop

@[simp]
theorem bytes_done : done.bytes = [] := rfl

@[simp]
theorem bytes_leaf (p : Piece) (h : p.isLeaf = true) (next : Content) :
    (leaf p h next).bytes = p.bytes ++ next.bytes := rfl

@[simp]
theorem bytes_closed (t : WrittenTag) (h : t.selfClosing = true) (next : Content) :
    (closed t h next).bytes = t.bytes ++ next.bytes := rfl

@[simp]
theorem bytes_element (t : WrittenTag) (h : t.selfClosing = false) (inner : Content)
    (e : WrittenEnd) (he : e.qname = t.qname) (next : Content) :
    (element t h inner e he next).bytes = t.bytes ++ (inner.bytes ++ (e.bytes ++ next.bytes)) := by
  simp [bytes, pieces, Piece.bytes]

end Content

section Run

variable {length : Nat} {root : Option Element} {f : Frame} {fs : List Frame}

theorem TreeState.run_cons {s s' : TreeState} {l : Lexeme} {ls : List Lexeme}
    (h : s.step length l = .ok s') : s.run length (l :: ls) = s'.run length ls := by
  rw [TreeState.run, h]

/-- A run that succeeds succeeds at its first lexeme. -/
theorem TreeState.run_eq_ok {s s' : TreeState} {l : Lexeme} {ls : List Lexeme}
    (h : s.run length (l :: ls) = .ok s') :
    ∃ s'', s.step length l = .ok s'' ∧ s''.run length ls = .ok s' := by
  rw [TreeState.run] at h
  cases hstep : s.step length l with
  | error fault =>
      rw [hstep] at h
      cases h
  | ok s'' =>
      rw [hstep] at h
      exact ⟨s'', rfl, h⟩

/-- A run over two pieces goes on where the first ended. -/
theorem TreeState.run_append {s s' : TreeState} {ls ls' : List Lexeme}
    (h : s.run length ls = .ok s') : s.run length (ls ++ ls') = s'.run length ls' := by
  induction ls generalizing s with
  | nil =>
      cases h
      rfl
  | cons l ls ih =>
      obtain ⟨s'', hstep, hrun⟩ := run_eq_ok h
      rw [List.cons_append, run_cons hstep, ih hrun]

theorem place_start (offset : Nat) (t : WrittenTag) (ps : List Piece) :
    place offset (.start t :: ps) =
      ⟨t.token, offset, offset + t.bytes.length⟩ :: place (offset + t.bytes.length) ps := rfl

theorem place_stop (offset : Nat) (e : WrittenEnd) (ps : List Piece) :
    place offset (.stop e :: ps) =
      ⟨.endTag e.qname, offset, offset + e.bytes.length⟩ :: place (offset + e.bytes.length) ps := rfl

/-- The open element with more character data and more children. -/
def Frame.extend (f : Frame) (es : List Element) (text : String) : Frame :=
  { f with children := es.reverse ++ f.children, text := f.text ++ text }

theorem Frame.extend_nil (f : Frame) : f.extend [] "" = f := by
  simp [extend]

/-- A frame extended twice is extended by both at once. -/
theorem Frame.extend_extend (f : Frame) (es es' : List Element) (s s' : String) :
    (f.extend es s).extend es' s' = f.extend (es ++ es') (s ++ s') := by
  simp [extend, String.append_assoc]

/-- A leaf inside an element adds its characters and no element. -/
theorem step_leaf {p : Piece} (hp : p.isLeaf = true) (start stop : Nat) :
    TreeState.step length ⟨f :: fs, root⟩ ⟨p.token, start, stop⟩ =
      .ok ⟨f.extend [] p.chars :: fs, root⟩ := by
  cases p with
  | start t => cases hp
  | stop t => cases hp
  | bare raw s ne_nil writes => simp [TreeState.step, Piece.token, Piece.chars, Frame.extend]
  | data raw s writes => simp [TreeState.step, Piece.token, Piece.chars, Frame.extend]
  | other w takes => simp [TreeState.step, Piece.token, Piece.chars, Frame.extend]

/-- The frame that a start tag opens. -/
def WrittenTag.frame (t : WrittenTag) (scope : Scope) (offset : Nat) : Frame :=
  ⟨t.qname, scope.kept t.tagAttrs, offset, offset + t.bytes.length, [], "",
    scope.declare t.tagAttrs⟩

/-- The element a start tag ends up as, once its content is read. -/
theorem WrittenTag.close_frame (t : WrittenTag) (scope : Scope) (offset : Nat) (es : List Element)
    (s : String) (innerEnd stop : Nat) (selfClosing : Bool) :
    ((t.frame scope offset).extend es s).close innerEnd stop selfClosing =
      .mk ⟨t.qname.part, scope.kept t.tagAttrs,
        ⟨offset, offset + t.bytes.length, innerEnd, stop, selfClosing⟩, Blank.trim s⟩ es := by
  simp [Frame.close, Frame.extend, frame]

/-- A self-closing tag adds an element without content. -/
theorem step_closed {t : WrittenTag} (ht : t.selfClosing = true) (offset : Nat) :
    TreeState.step length ⟨f :: fs, root⟩ ⟨t.token, offset, offset + t.bytes.length⟩ =
      .ok ⟨f.extend [(t.frame f.scope offset).close (offset + t.bytes.length)
        (offset + t.bytes.length) true] "" :: fs, root⟩ := by
  simp [TreeState.step, WrittenTag.token, ht, TreeState.add, Frame.extend, WrittenTag.frame,
    Scope.kept]

/-- A start tag opens a frame. -/
theorem step_open {t : WrittenTag} (ht : t.selfClosing = false) (offset : Nat) :
    TreeState.step length ⟨f :: fs, root⟩ ⟨t.token, offset, offset + t.bytes.length⟩ =
      .ok ⟨t.frame f.scope offset :: f :: fs, root⟩ := by
  simp [TreeState.step, WrittenTag.token, ht, WrittenTag.frame, Scope.kept]

/-- An end tag is at fault unless it names the open element. -/
theorem endTagFault?_eq_none {q : QName} : endTagFault? (f :: fs) q = none ↔ q = f.name := by
  unfold endTagFault?
  dsimp only
  split_ifs with hpart hspace
  · simp only [false_iff]
    rintro rfl
    exact hpart rfl
  · simp only [false_iff]
    rintro rfl
    exact hspace rfl
  · simp only [true_iff]
    rw [not_not] at hpart hspace
    cases hf : f.name
    cases q
    simp_all

/-- The end tag of the open element closes its frame. -/
theorem step_stop {q : QName} (hq : q = f.name) (start stop : Nat) :
    TreeState.step length ⟨f :: fs, root⟩ ⟨.endTag q, start, stop⟩ =
      .ok (TreeState.add ⟨fs, root⟩ (f.close start stop false)) := by
  have hnone : endTagFault? (f :: fs) q = none := endTagFault?_eq_none.mpr hq
  simp [TreeState.step, hnone]

theorem add_cons (e : Element) :
    TreeState.add ⟨f :: fs, root⟩ e = ⟨f.extend [e] "" :: fs, root⟩ := by
  simp [TreeState.add, Frame.extend]

/-- Taking in a content. -/
theorem run_pieces (c : Content) :
    ∀ (f : Frame) (fs : List Frame) (offset : Nat),
      TreeState.run length ⟨f :: fs, root⟩ (place offset c.pieces) =
        .ok ⟨f.extend (c.elements f.scope offset) c.chars :: fs, root⟩ := by
  induction c with
  | done =>
      intro f fs offset
      rw [Content.elements, Content.chars, Frame.extend_nil]
      rfl
  | leaf p hp next ih =>
      intro f fs offset
      rw [Content.pieces, place, TreeState.run_cons (step_leaf hp _ _), ih, Frame.extend_extend]
      rfl
  | closed t ht next ih =>
      intro f fs offset
      rw [Content.pieces, place_start, TreeState.run_cons (step_closed ht offset), ih,
        Frame.extend_extend, String.empty_append]
      rfl
  | element t ht inner e he next ihinner ihnext =>
      intro f fs offset
      rw [Content.pieces, place_start, TreeState.run_cons (step_open ht offset), place_append,
        TreeState.run_append (ihinner _ _ _), place_stop, TreeState.run_cons (step_stop he _ _),
        add_cons, ihnext, Frame.extend_extend, String.empty_append, WrittenTag.close_frame]
      rfl

/-- Pieces that close the open element start with a content and its end tag.  The induction is on
the number of pieces, since an inner element takes more than one of them. -/
theorem exists_content (n : Nat) :
    ∀ (ps : List Piece) (f : Frame) (fs : List Frame) (root : Option Element) (offset : Nat)
      (s : TreeState), ps.length ≤ n →
      TreeState.run length ⟨f :: fs, root⟩ (place offset ps) = .ok s → s.stack = [] →
      ∃ (c : Content) (e : WrittenEnd) (rest : List Piece),
        ps = c.pieces ++ .stop e :: rest ∧ e.qname = f.name := by
  induction n with
  | zero =>
      intro ps f fs root offset s hn hrun hstack
      obtain rfl := List.length_eq_zero_iff.mp (Nat.le_zero.mp hn)
      cases hrun
      cases hstack
  | succ n ih =>
      intro ps f fs root offset s hn hrun hstack
      cases ps with
      | nil =>
          cases hrun
          cases hstack
      | cons p ps =>
          rw [List.length_cons] at hn
          cases p with
          | start t =>
              rw [place_start] at hrun
              by_cases ht : t.selfClosing = true
              · rw [TreeState.run_cons (step_closed ht offset)] at hrun
                obtain ⟨c, e, rest, rfl, he⟩ := ih ps _ _ _ _ s (by omega) hrun hstack
                exact ⟨.closed t ht c, e, rest, rfl, he⟩
              · rw [Bool.not_eq_true] at ht
                rw [TreeState.run_cons (step_open ht offset)] at hrun
                obtain ⟨inner, e, rest, rfl, he⟩ := ih ps _ _ _ _ s (by omega) hrun hstack
                replace he : e.qname = t.qname := he
                rw [place_append, TreeState.run_append (run_pieces inner _ _ _), place_stop,
                  TreeState.run_cons (step_stop he _ _), add_cons] at hrun
                rw [List.length_append, List.length_cons] at hn
                obtain ⟨next, e', rest', rfl, he'⟩ := ih rest _ _ _ _ s (by omega) hrun hstack
                exact ⟨.element t ht inner e he next, e', rest', by simp [Content.pieces], he'⟩
          | stop e =>
              obtain ⟨s', hstep, -⟩ := TreeState.run_eq_ok hrun
              refine ⟨.done, e, ps, rfl, ?_⟩
              cases hfault : endTagFault? (f :: fs) e.qname with
              | none => exact endTagFault?_eq_none.mp hfault
              | some fault => simp [TreeState.step, Piece.token, hfault] at hstep
          | bare | data | other =>
              rw [place, TreeState.run_cons (step_leaf rfl _ _)] at hrun
              obtain ⟨c, e, rest, rfl, he⟩ := ih ps _ _ _ _ s (by omega) hrun hstack
              exact ⟨.leaf _ rfl c, e, rest, rfl, he⟩

end Run

/-- A content that is a whole text: one element, and nothing but blanks around it. -/
structure Content.IsDocument (c : Content) (e : Element) : Prop where
  apart : Apart c.pieces
  blank : Blank.isAllBlank c.chars = true
  root : c.elements [] 0 = [e]

section Top

variable {length : Nat} {root : Option Element}

/-- Two texts are blank together when both are. -/
theorem isAllBlank_append (s s' : String) :
    Blank.isAllBlank (s ++ s') = (Blank.isAllBlank s && Blank.isAllBlank s') := by
  rw [Blank.isAllBlank, String.toList_append, List.all_append]
  rfl

/-- Outside the root only blank text is passed over. -/
theorem step_leaf_top (length : Nat) (root : Option Element) {p : Piece} (hp : p.isLeaf = true)
    (start stop : Nat) :
    TreeState.step length ⟨[], root⟩ ⟨p.token, start, stop⟩ =
      if Blank.isAllBlank p.chars then .ok ⟨[], root⟩ else .error (.strayText start) := by
  cases p with
  | start t => cases hp
  | stop t => cases hp
  | bare raw s ne_nil writes => rfl
  | data raw s writes => rfl
  | other w takes => rfl

/-- The first start tag makes the root. -/
theorem step_start_top (length : Nat) (t : WrittenTag) (offset : Nat) :
    TreeState.step length ⟨[], none⟩ ⟨t.token, offset, offset + t.bytes.length⟩ =
      .ok (if t.selfClosing then ⟨[], some ((t.frame [] offset).close (offset + t.bytes.length)
          (offset + t.bytes.length) true)⟩
        else ⟨[t.frame [] offset], none⟩) := by
  cases ht : t.selfClosing <;>
    simp [TreeState.step, WrittenTag.token, ht, TreeState.add, WrittenTag.frame, Scope.kept]

/-- Taking in a content around the root or behind it. -/
theorem run_blank {c : Content} (hblank : Blank.isAllBlank c.chars = true) :
    ∀ offset, c.elements [] offset = [] →
      TreeState.run length ⟨[], root⟩ (place offset c.pieces) = .ok ⟨[], root⟩ := by
  induction c with
  | done => intro offset _; rfl
  | leaf p hp next ih =>
      intro offset hnone
      rw [Content.chars, isAllBlank_append, Bool.and_eq_true] at hblank
      have hstep := step_leaf_top length root hp offset (offset + p.bytes.length)
      rw [if_pos hblank.1] at hstep
      rw [Content.pieces, place, TreeState.run_cons hstep]
      exact ih hblank.2 _ hnone
  | closed t ht next ih => intro offset hnone; cases hnone
  | element t ht inner e he next ihinner ihnext => intro offset hnone; cases hnone

/-- Taking in a whole text. -/
theorem run_document {c : Content} {e : Element} (hblank : Blank.isAllBlank c.chars = true) :
    ∀ offset, c.elements [] offset = [e] →
      TreeState.run length ⟨[], none⟩ (place offset c.pieces) = .ok ⟨[], some e⟩ := by
  induction c with
  | done => intro offset hone; cases hone
  | leaf p hp next ih =>
      intro offset hone
      rw [Content.chars, isAllBlank_append, Bool.and_eq_true] at hblank
      have hstep := step_leaf_top length none hp offset (offset + p.bytes.length)
      rw [if_pos hblank.1] at hstep
      rw [Content.pieces, place, TreeState.run_cons hstep]
      exact ih hblank.2 _ hone
  | closed t ht next ih =>
      intro offset hone
      rw [Content.elements, List.cons.injEq] at hone
      have hstep := step_start_top length t offset
      rw [if_pos ht] at hstep
      rw [Content.pieces, place_start, TreeState.run_cons hstep, ← hone.1]
      exact run_blank (c := next) hblank _ hone.2
  | element t ht inner e' he next ihinner ihnext =>
      intro offset hone
      rw [Content.elements, List.cons.injEq] at hone
      have hstep := step_start_top length t offset
      rw [if_neg (by simp [ht])] at hstep
      rw [Content.pieces, place_start, TreeState.run_cons hstep, place_append,
        TreeState.run_append (run_pieces inner _ _ _), place_stop,
        TreeState.run_cons (step_stop he _ _), WrittenTag.close_frame, ← hone.1]
      exact run_blank (c := next) hblank _ hone.2

/-- Pieces that were taken in without an open element left are a content. -/
theorem exists_content_top (n : Nat) :
    ∀ (ps : List Piece) (root root' : Option Element) (offset : Nat), ps.length ≤ n →
      TreeState.run length ⟨[], root⟩ (place offset ps) = .ok ⟨[], root'⟩ →
      ∃ c : Content, c.pieces = ps ∧ Blank.isAllBlank c.chars = true ∧
        root'.toList = root.toList ++ c.elements [] offset := by
  induction n with
  | zero =>
      intro ps root root' offset hn hrun
      obtain rfl := List.length_eq_zero_iff.mp (Nat.le_zero.mp hn)
      cases hrun
      exact ⟨.done, rfl, rfl, by simp [Content.elements]⟩
  | succ n ih =>
      intro ps root root' offset hn hrun
      cases ps with
      | nil =>
          cases hrun
          exact ⟨.done, rfl, rfl, by simp [Content.elements]⟩
      | cons p ps =>
          rw [List.length_cons] at hn
          cases p with
          | start t =>
              obtain rfl : root = none := by
                obtain ⟨s, hstep, -⟩ := TreeState.run_eq_ok hrun
                cases root with
                | none => rfl
                | some e => simp [TreeState.step, Piece.token, WrittenTag.token] at hstep
              have hstep := step_start_top length t offset
              rw [place_start] at hrun
              by_cases ht : t.selfClosing = true
              · rw [if_pos ht] at hstep
                rw [TreeState.run_cons hstep] at hrun
                obtain ⟨c, rfl, hblank, hroot⟩ := ih ps _ _ _ (by omega) hrun
                exact ⟨.closed t ht c, rfl, hblank, hroot⟩
              · rw [if_neg ht] at hstep
                rw [Bool.not_eq_true] at ht
                rw [TreeState.run_cons hstep] at hrun
                obtain ⟨inner, e, rest, rfl, he⟩ :=
                  exists_content _ ps _ _ _ _ _ (Nat.le_refl _) hrun rfl
                replace he : e.qname = t.qname := he
                rw [place_append, TreeState.run_append (run_pieces inner _ _ _), place_stop,
                  TreeState.run_cons (step_stop he _ _), WrittenTag.close_frame] at hrun
                rw [List.length_append, List.length_cons] at hn
                obtain ⟨c, rfl, hblank, hroot⟩ := ih rest _ _ _ (by omega) hrun
                exact ⟨.element t ht inner e he c, rfl, hblank, hroot⟩
          | stop e =>
              obtain ⟨s, hstep, -⟩ := TreeState.run_eq_ok hrun
              simp [TreeState.step, Piece.token, endTagFault?] at hstep
          | bare | data | other =>
              obtain ⟨s, hstep, hrest⟩ := TreeState.run_eq_ok hrun
              rw [step_leaf_top length root rfl] at hstep
              split_ifs at hstep with hchars
              cases hstep
              obtain ⟨c, rfl, hblank, hroot⟩ := ih ps _ _ _ (by omega) hrest
              refine ⟨.leaf _ rfl c, rfl, (isAllBlank_append _ _).trans ?_, hroot⟩
              rw [hchars, hblank]
              rfl

end Top

/-- **Reading a tree.**  A text is read as a tree when it is the text of a content that is a whole
document. -/
theorem readTree_eq_ok {source : Bytes} {e : Element} :
    readTree source = .ok e ↔ ∃ c : Content, source = c.bytes ∧ c.IsDocument e := by
  constructor
  · intro h
    unfold readTree at h
    cases htokens : tokens source with
    | mk ls stopped =>
        rw [htokens] at h
        dsimp only at h
        cases hrun : TreeState.run source.length ⟨[], none⟩ ls with
        | error fault =>
            rw [hrun] at h
            cases h
        | ok s =>
            rw [hrun] at h
            obtain ⟨stack, root⟩ := s
            cases stopped with
            | some stop => cases h
            | none =>
                have hnone : (tokens source).2 = none := by rw [htokens]
                obtain ⟨ps, hapart, hsource⟩ := exists_pieces hnone
                have hplace := tokens_written hapart
                rw [← hsource, htokens] at hplace
                obtain rfl : ls = place 0 ps := (Prod.mk.inj hplace).1
                cases stack with
                | cons f fs => cases h
                | nil =>
                    cases root with
                    | none => cases h
                    | some e' =>
                        cases h
                        obtain ⟨c, rfl, hblank, hroot⟩ :=
                          exists_content_top _ ps _ _ _ (Nat.le_refl _) hrun
                        exact ⟨c, hsource, hapart, hblank, hroot.symm⟩
  · rintro ⟨c, rfl, hc⟩
    unfold readTree
    rw [Content.bytes, tokens_written hc.apart]
    simp only [run_document hc.blank 0 hc.root, bind, Except.bind]
    rfl

end Xml

/-- The documents that are read are those of contents. -/
theorem Document.parse_eq_ok {source : Bytes} {path : String} {d : Document} :
    Document.parse source path = .ok d ↔
      ∃ (c : Xml.Content) (e : Element), source = c.bytes ∧ c.IsDocument e ∧
        d = Document.ofElement source path e := by
  unfold Document.parse
  constructor
  · intro h
    cases htree : Xml.readTree source with
    | error fault =>
        rw [htree] at h
        cases h
    | ok e =>
        rw [htree] at h
        cases h
        obtain ⟨c, hsource, hc⟩ := Xml.readTree_eq_ok.mp htree
        exact ⟨c, e, hsource, hc, rfl⟩
  · rintro ⟨c, e, hsource, hc, rfl⟩
    rw [Xml.readTree_eq_ok.mpr ⟨c, hsource, hc⟩]

end InstallerLint
