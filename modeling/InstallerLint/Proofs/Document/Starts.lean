import InstallerLint.Proofs.Document.Shape
import InstallerLint.Proofs.Text.Lines

/-!
# Where elements start

No two elements of a document that was read start at the same line and column.

**Offsets.**  In document order the start tags of a tree stand at increasing offsets, each at an
opening bracket (`opens_starts`).

**Positions.**  A bracket is an ASCII byte, so these offsets have different positions
(`start_injective`), and their lines do not decrease (`startLine_le`).
-/

namespace InstallerLint

theorem Span.Located.le {source : Bytes} {s : Span} (h : s.Located source) : s.start ≤ s.stop :=
  h.start_lt.le.trans (h.tagEnd_le.trans h.innerEnd_le)

namespace Element

mutual

/-- The offsets of the start tags of a tree in document order. -/
def starts : Element → List Nat
  | .mk head children => head.span.start :: startsAll children

/-- The offsets of the start tags of several trees. -/
def startsAll : List Element → List Nat
  | [] => []
  | e :: es => e.starts ++ startsAll es

end

section Layout

variable (place : Nat → Position)

mutual

theorem map_layout (parent : Option Nat) (id : Nat) :
    ∀ e : Element,
      ((layout place parent id e).map fun n => (n.range.startLine, n.range.startCol)) =
        e.starts.map fun s => ((place s).line, (place s).col)
  | .mk head children => by
      rw [layout, starts, List.map_cons, List.map_cons, map_layoutAll id (id + 1) children]

theorem map_layoutAll (parent next : Nat) :
    ∀ es : List Element,
      ((layoutAll place parent next es).map fun n => (n.range.startLine, n.range.startCol)) =
        (startsAll es).map fun s => ((place s).line, (place s).col)
  | [] => rfl
  | e :: es => by
      rw [layoutAll, startsAll, List.map_append, List.map_append, map_layout (some parent) next e,
        map_layoutAll parent (next + e.size) es]

end

end Layout

/-- Offsets that increase between two bounds, each at an opening bracket. -/
structure Opens (source : Bytes) (lo hi : Nat) (offsets : List Nat) : Prop where
  increasing : offsets.Pairwise (· < ·)
  bracket : ∀ s ∈ offsets, source[s]? = some 0x3C
  bounds : ∀ s ∈ offsets, lo ≤ s ∧ s < hi

section Offsets

variable {source : Bytes} {lo mid hi : Nat} {l l' : List Nat}

theorem Opens.append (h : Opens source lo mid l) (h' : Opens source mid hi l') (hlo : lo ≤ mid)
    (hhi : mid ≤ hi) : Opens source lo hi (l ++ l') where
  increasing := List.pairwise_append.mpr ⟨h.increasing, h'.increasing, fun s hs s' hs' =>
    Nat.lt_of_lt_of_le (h.bounds s hs).2 (h'.bounds s' hs').1⟩
  bracket := fun s hs => (List.mem_append.mp hs).elim (h.bracket s) (h'.bracket s)
  bounds := fun s hs => by
    rcases List.mem_append.mp hs with hs | hs
    · exact ⟨(h.bounds s hs).1, (h.bounds s hs).2.trans_le hhi⟩
    · exact ⟨hlo.trans (h'.bounds s hs).1, (h'.bounds s hs).2⟩

theorem InRow.le {es : List Element} (hplaced : PlacedAll source es) (h : InRow lo hi es) :
    lo ≤ hi := by
  induction es generalizing lo with
  | nil => exact h
  | cons e es ih =>
      exact h.1.trans (hplaced.1.located.le.trans (ih hplaced.2 h.2))

end Offsets

mutual

/-- The start tags of a tree in a source open one behind the other. -/
theorem opens_starts {source : Bytes} : ∀ e : Element, e.Placed source →
    Opens source e.span.start e.span.stop e.starts
  | .mk head children, h => by
      rw [Placed] at h
      obtain ⟨hlocated, hrow, hplaced⟩ := h
      have hstart := hlocated.start_lt
      have hfirst : Opens source head.span.start head.span.tagEnd [head.span.start] :=
        ⟨List.pairwise_singleton _ _, by simpa using hlocated.opens, by simpa using hstart⟩
      have hall := hfirst.append (opens_startsAll children _ _ hplaced hrow) hstart.le
        (hrow.le hplaced)
      refine ⟨hall.increasing, hall.bracket, fun s hs => ?_⟩
      have hbounds := hall.bounds s hs
      exact ⟨hbounds.1, hbounds.2.trans_le hlocated.innerEnd_le⟩

/-- The start tags of trees in a row open one behind the other. -/
theorem opens_startsAll {source : Bytes} : ∀ (es : List Element) (lo hi : Nat),
    PlacedAll source es → InRow lo hi es → Opens source lo hi (startsAll es)
  | [], lo, hi, _, _ => ⟨List.Pairwise.nil, by simp [startsAll], by simp [startsAll]⟩
  | e :: es, lo, hi, h, hrow => by
      have hfirst := opens_starts e h.1
      have hrest := opens_startsAll es _ hi h.2 hrow.2
      have hle := h.1.located.le
      have hwider : Opens source lo e.span.stop e.starts :=
        ⟨hfirst.increasing, hfirst.bracket, fun s hs =>
          ⟨hrow.1.trans (hfirst.bounds s hs).1, (hfirst.bounds s hs).2⟩⟩
      rw [startsAll]
      exact hwider.append hrest (hrow.1.trans hle) (hrow.2.le h.2)

end

end Element

namespace Document

open Element

/-- The start tags of a document that was read open at increasing offsets, and every element has the
position of its own. -/
theorem exists_starts {source : Bytes} {path : String} {d : Document}
    (h : Document.parse source path = .ok d) :
    ∃ lo hi offsets, Opens source lo hi offsets ∧
      ∀ k < d.size, ∃ s, offsets[k]? = some s ∧
        (d.range k).startLine = ((LineIndex.ofSource source).position s).line ∧
        (d.range k).startCol = ((LineIndex.ofSource source).position s).col := by
  unfold Document.parse at h
  cases htree : Xml.readTree source with
  | error fault =>
      rw [htree] at h
      cases h
  | ok e =>
      rw [htree] at h
      cases h
      set place : Nat → Position := fun n => (LineIndex.ofSource source).position n with hplace
      refine ⟨_, _, e.starts, opens_starts e (Xml.placed_of_readTree htree), fun k hk => ?_⟩
      have hk' : k < (e.layout place none 0).length := by simpa [ofElement, size] using hk
      have hkey : ((e.layout place none 0).map fun n => (n.range.startLine, n.range.startCol))[k]? =
          some (((ofElement source path e).range k).startLine,
            ((ofElement source path e).range k).startCol) := by
        rw [List.getElem?_map, List.getElem?_eq_getElem hk']
        simp [range, node?, ofElement, ← hplace, List.getElem?_eq_getElem hk']
      rw [map_layout place none 0 e, List.getElem?_map] at hkey
      obtain ⟨s, hs, heq⟩ := Option.map_eq_some_iff.mp hkey
      obtain ⟨hline, hcol⟩ := Prod.mk.inj heq
      exact ⟨s, hs, hline.symm, hcol.symm⟩

section Order

variable {source : Bytes} {path : String} {d : Document} {i j : Nat}

/-- In document order the lines of start tags do not decrease. -/
theorem startLine_le (h : Document.parse source path = .ok d) (hij : i ≤ j) (hj : j < d.size) :
    (d.range i).startLine ≤ (d.range j).startLine := by
  rcases hij.eq_or_lt with rfl | hlt
  · exact le_refl _
  obtain ⟨lo, hi, offsets, hopens, hstarts⟩ := exists_starts h
  obtain ⟨s, hs, hline, -⟩ := hstarts i (hlt.trans hj)
  obtain ⟨s', hs', hline', -⟩ := hstarts j hj
  rw [hline, hline']
  obtain ⟨hin, rfl⟩ := List.getElem?_eq_some_iff.mp hs
  obtain ⟨hin', rfl⟩ := List.getElem?_eq_some_iff.mp hs'
  have hbefore := List.pairwise_iff_getElem.mp hopens.increasing i j hin hin' hlt
  obtain ⟨hinside, -⟩ :=
    List.getElem?_eq_some_iff.mp (hopens.bracket _ (List.getElem_mem hin'))
  exact LineIndex.line_le hbefore.le hinside.le

/-- **No two elements start at the same place.** -/
theorem start_injective (h : Document.parse source path = .ok d) (hi : i < d.size)
    (hj : j < d.size) (hline : (d.range i).startLine = (d.range j).startLine)
    (hcol : (d.range i).startCol = (d.range j).startCol) : i = j := by
  obtain ⟨lo, hi', offsets, hopens, hstarts⟩ := exists_starts h
  have hnodup : (offsets.map fun s => (LineIndex.ofSource source).position (s : Nat)).Nodup := by
    refine List.pairwise_map.mpr (hopens.increasing.imp_of_mem fun {s s'} hs hs' hlt => ?_)
    obtain ⟨hin, -⟩ := List.getElem?_eq_some_iff.mp (hopens.bracket s' hs')
    exact LineIndex.position_ne (by decide) (hopens.bracket s hs) hlt hin.le
  obtain ⟨s, hs, hlineI, hcolI⟩ := hstarts i hi
  obtain ⟨s', hs', hlineJ, hcolJ⟩ := hstarts j hj
  have hsame : (LineIndex.ofSource source).position s = (LineIndex.ofSource source).position s' := by
    rw [hlineI, hlineJ] at hline
    rw [hcolI, hcolJ] at hcol
    exact (Position.mk.injEq ..).mpr ⟨hline, hcol⟩
  obtain ⟨hin, -⟩ := List.getElem?_eq_some_iff.mp hs
  refine (List.getElem?_inj (by simpa using hin) hnodup).mp ?_
  rw [List.getElem?_map, List.getElem?_map, hs, hs', Option.map_some, Option.map_some, hsame]

end Order

end Document
end InstallerLint
