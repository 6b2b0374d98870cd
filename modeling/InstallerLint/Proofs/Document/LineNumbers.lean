import InstallerLint.Proofs.Document.Shape
import InstallerLint.Proofs.Suppression
import InstallerLint.Proofs.Text.Positions

/-!
# Line numbers

Lines are numbered twice: elements have the position of their start tag, and suppression comments have
the number of the piece in which they are written when the source is split at line feeds
(`mem_directives_iff`).  Both number alike (`lines_agree`).
-/

namespace InstallerLint

namespace Suppression

/-- The directives of a piece that is numbered. -/
def directivesOn (line : Nat) (piece : Bytes) : List Directive :=
  directivesIn line (piece.toText.toList.length + 1) piece.toText.toList

section Directives

variable {dir : Directive}

theorem mem_directivesFrom_iff {line : Nat} {texts : List Bytes} :
    dir ∈ directivesFrom line texts ↔ ∃ before text after, texts = before ++ text :: after ∧
      dir.line = line + before.length ∧ dir ∈ directivesOn dir.line text := by
  induction texts generalizing line with
  | nil => simp [directivesFrom]
  | cons text texts ih =>
      rw [directivesFrom, List.mem_append, ih]
      constructor
      · rintro (h | ⟨before, text', after, rfl, hline, hmem⟩)
        · have hline := line_of_mem_directivesIn h
          exact ⟨[], text, texts, rfl, hline, by rwa [directivesOn, hline]⟩
        · exact ⟨text :: before, text', after, rfl, by rw [hline, List.length_cons]; omega, hmem⟩
      · rintro ⟨before, text', after, htexts, hline, hmem⟩
        cases before with
        | nil =>
            obtain ⟨rfl, rfl⟩ := List.cons.inj htexts
            rw [hline] at hmem
            exact .inl hmem
        | cons first before =>
            obtain ⟨rfl, rfl⟩ := List.cons.inj htexts
            exact .inr ⟨before, text', after, rfl, by rw [hline, List.length_cons]; omega, hmem⟩

/-- A directive has the number of the piece in which it is written. -/
theorem mem_directives_iff {source : Bytes} : dir ∈ directives source ↔
    ∃ start piece, source.IsPiece dir.line start piece ∧ dir ∈ directivesOn dir.line piece := by
  rw [directives, mem_directivesFrom_iff]
  constructor
  · rintro ⟨before, piece, after, hsplit, hline, hmem⟩
    exact ⟨_, piece, ⟨before, after, hsplit, by omega, rfl⟩, hmem⟩
  · rintro ⟨_, piece, ⟨before, after, hsplit, hline, rfl⟩, hmem⟩
    exact ⟨before, piece, after, hsplit, by omega, hmem⟩

end Directives

end Suppression

namespace Element

variable {place : Nat → Position} {n : Node}

mutual

/-- An element has the line of its start tag. -/
theorem line_of_mem_layout {parent : Option Nat} {id : Nat} :
    ∀ e : Element, n ∈ layout place parent id e →
      ∃ s, n.span = some s ∧ n.range.startLine = (place s.start).line
  | .mk head children, h => by
      rw [layout] at h
      rcases List.mem_cons.mp h with rfl | h
      · exact ⟨head.span, rfl, rfl⟩
      · exact line_of_mem_layoutAll children h

theorem line_of_mem_layoutAll {parent next : Nat} :
    ∀ es : List Element, n ∈ layoutAll place parent next es →
      ∃ s, n.span = some s ∧ n.range.startLine = (place s.start).line
  | [], h => by cases h
  | e :: es, h => by
      rw [layoutAll] at h
      rcases List.mem_append.mp h with h | h
      · exact line_of_mem_layout e h
      · exact line_of_mem_layoutAll es h

end

end Element

namespace Document

open Suppression

variable {source : Bytes} {path : String} {d : Document} {id : Nat}

/-- An element of a document that was read has the line on which its start tag opens. -/
theorem exists_start (h : Document.parse source path = .ok d) (hid : id < d.size) :
    ∃ s, d.spanOf id = .ok s ∧ s.start ≤ source.length ∧
      (d.range id).startLine = ((LineIndex.ofSource source).position s.start).line := by
  obtain ⟨s, hspan, hlocated⟩ := (isLocated_of_parse h).located id hid
  rw [(holds_of_parse h).1] at hlocated
  refine ⟨s, hspan, ?_, ?_⟩
  · exact (hlocated.start_lt.le.trans hlocated.tagEnd_le).trans
      (hlocated.innerEnd_le.trans hlocated.stop_le)
  · unfold Document.parse at h
    cases htree : Xml.readTree source with
    | error fault =>
        rw [htree] at h
        cases h
    | ok e =>
        rw [htree] at h
        cases h
        have hget : (ofElement source path e).nodes[id]? = some (ofElement source path e).nodes[id] :=
          Array.getElem?_eq_getElem hid
        obtain ⟨s', hs', hline⟩ := Element.line_of_mem_layout e
          (List.mem_toArray.mp (Array.getElem_mem hid))
        simp only [spanOf, node?, hget, hs'] at hspan
        split_ifs at hspan
        cases hspan
        simp only [range, node?, hget]
        exact hline

/-- **Lines are numbered alike.**  Whatever stands in a source:

* the position of an offset, which counts as the nearer end when it is outside, is that of a plain
  scan: the line feeds in front of it, and the characters behind the last of them;
* the line is the number of the piece in which the offset stands when the source is split at line
  feeds;
* from a boundary between characters on, positions increase;
* a suppression comment has the number of the piece in which it is written, and an element that of the
  piece in which its start tag opens.  So a comment for its own line is about the elements that start
  there, and turns its rules off for them. -/
theorem lines_agree (source : Bytes) :
    (∀ offset : Int, let place := min offset.toNat source.length
      (LineIndex.ofSource source).position offset =
        ⟨(source.take place).count 0x0A + 1,
          Bytes.charCount (Bytes.openLine (source.take place)) + 1⟩ ∧
      ∀ n, ((LineIndex.ofSource source).position offset).line = n ↔ source.StandsIn n place) ∧
    (∀ i j : Nat, source.Boundary i → i < j → j ≤ source.length →
      ((LineIndex.ofSource source).position i).Before ((LineIndex.ofSource source).position j)) ∧
    (List.intercalate [0x0A] source.splitLF = source ∧ ∀ piece ∈ source.splitLF, 0x0A ∉ piece) ∧
    (∀ dir, dir ∈ directives source ↔
      ∃ start piece, source.IsPiece dir.line start piece ∧ dir ∈ directivesOn dir.line piece) ∧
    ∀ (path : String) (d : Document), Document.parse source path = .ok d → ∀ id < d.size,
      ∃ s n, d.spanOf id = .ok s ∧ (d.location id).line = (n : Nat) ∧ source.StandsIn n s.start ∧
        ∀ dir ∈ directives source, dir.action = .disableLine →
          (dir.Targets n ↔ source.StandsIn dir.line s.start) ∧
          (source.StandsIn dir.line s.start → ∀ ruleId, dir.IsFor ruleId →
            (Set.ofSource source).isSuppressed ruleId (d.location id).line = true) := by
  refine ⟨fun offset => ?_, fun i j hi hlt hj => LineIndex.before_of_boundary hi hlt hj,
    ⟨Bytes.intercalate_splitLF source, fun piece hpiece => (Bytes.of_mem_splitLF hpiece).1⟩,
    fun dir => mem_directives_iff, fun path d h id hid => ?_⟩
  · have hle := Nat.min_le_right offset.toNat source.length
    rw [LineIndex.position_clamp]
    exact ⟨LineIndex.position_eq_scan hle, fun n => LineIndex.line_eq_iff hle⟩
  · obtain ⟨s, hspan, hle, hline⟩ := exists_start h hid
    have hstands := (LineIndex.line_eq_iff hle).mp hline.symm
    refine ⟨s, _, hspan, rfl, hstands, fun dir hdir haction => ?_⟩
    have hsame : dir.Targets (d.range id).startLine ↔ source.StandsIn dir.line s.start := by
      constructor
      · rintro (⟨-, hline⟩ | ⟨hother, -⟩ | ⟨hother, -⟩)
        · exact hline ▸ hstands
        · rw [haction] at hother
          cases hother
        · rw [haction] at hother
          cases hother
      · exact fun hdirective => .inl ⟨haction, hdirective.unique hstands⟩
    refine ⟨hsame, fun hdirective ruleId hfor => ?_⟩
    exact (isSuppressed_ofDirectives (pairwise_directives source) ruleId
      (hstands.le_length.trans (Nat.le_succ _))).mpr (.inl ⟨dir, hdir, hsame.mpr hdirective, hfor⟩)

end Document
end InstallerLint
