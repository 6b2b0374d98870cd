import InstallerLint.Proofs.Text.Lines
import InstallerLint.Proofs.Xml.Pieces

/-!
# Joining character data

Two pieces of bare text that are put side by side become one.  What is read from them is joined as
well (`Writes.append`), with two exceptions at the seam, where bytes of both sides belong together:

* two brackets and a greater-than sign end a section, which is a fault in bare text
  (`MakesSectionEnd`);
* a carriage return and a line feed are one line end (`MakesLineEnd`).

**Runs.**  Bare text that is read to its end is a run of references, line ends and plain bytes
(`Reads`).  Every law about joining is an induction on this run.
-/

namespace InstallerLint

/-- Two brackets and a greater-than sign stand across a seam. -/
def MakesSectionEnd (front back : Bytes) : Prop :=
  ([0x5D, 0x5D] <:+ front ∧ [0x3E] <+: back) ∨ ([0x5D] <:+ front ∧ [0x5D, 0x3E] <+: back)

/-- A carriage return and a line feed stand across a seam. -/
def MakesLineEnd (front back : Bytes) : Prop := [0x0D] <:+ front ∧ [0x0A] <+: back

instance (front back : Bytes) : Decidable (MakesSectionEnd front back) :=
  inferInstanceAs (Decidable (_ ∨ _))

instance (front back : Bytes) : Decidable (MakesLineEnd front back) :=
  inferInstanceAs (Decidable (_ ∧ _))

section Seams

variable {m w front back : Bytes}

theorem suffix_append_iff (hw : ∀ b ∈ w.getLast?, b ∉ m) : m <:+ w ++ front ↔ m <:+ front := by
  refine ⟨fun h => ?_, fun h => h.trans (List.suffix_append w front)⟩
  by_cases hlen : m.length ≤ front.length
  · exact List.suffix_of_suffix_length_le h (List.suffix_append w front) hlen
  · -- A longer end would reach into `w`.
    obtain ⟨t, rfl⟩ := List.suffix_of_suffix_length_le (List.suffix_append w front) h (by omega)
    obtain ⟨u, hu⟩ := h
    rw [← List.append_assoc] at hu
    have hut := List.append_cancel_right hu
    rcases List.eq_nil_or_concat' t with rfl | ⟨t, b, rfl⟩
    · simp at hlen
    · exact absurd (by simp) (hw b (by rw [← hut]; simp))

theorem makesSectionEnd_append (hw : w.getLast? ≠ some 0x5D) :
    MakesSectionEnd (w ++ front) back ↔ MakesSectionEnd front back := by
  unfold MakesSectionEnd
  rw [suffix_append_iff fun b hb h => hw (by simp_all),
    suffix_append_iff fun b hb h => hw (by simp_all)]

/-- A section end across a seam starts at the last bytes of the front. -/
theorem makesSectionEnd_cons {b : UInt8} :
    MakesSectionEnd (b :: front) back ↔
      (front.length < 2 ∧ [b] ++ (front ++ back).take 2 = [0x5D, 0x5D, 0x3E]) ∨
        MakesSectionEnd front back := by
  have hone : [0x3E] <+: back ↔ back.take 1 = [0x3E] := by
    rw [List.prefix_iff_eq_take, eq_comm, List.length_singleton]
  have htwo : [0x5D, 0x3E] <+: back ↔ back.take 2 = [0x5D, 0x3E] := by
    rw [List.prefix_iff_eq_take, eq_comm, List.length_cons, List.length_singleton]
  unfold MakesSectionEnd
  rw [hone, htwo]
  match front with
  | [] => simp [List.suffix_cons_iff, eq_comm (a := b)]
  | [x] => simp [List.suffix_cons_iff, eq_comm (a := b), eq_comm (a := x), and_assoc]
  | x :: y :: front => simp [List.suffix_cons_iff]

theorem makesLineEnd_append (hw : w.getLast? ≠ some 0x0D) :
    MakesLineEnd (w ++ front) back ↔ MakesLineEnd front back := by
  unfold MakesLineEnd
  rw [suffix_append_iff fun b hb h => hw (by simp_all)]

theorem makesLineEnd_cons {b : UInt8} :
    MakesLineEnd (b :: front) back ↔
      (front = [] ∧ b = 0x0D ∧ [0x0A] <+: back) ∨ MakesLineEnd front back := by
  unfold MakesLineEnd
  rw [List.suffix_cons_iff, List.cons.injEq]
  constructor
  · rintro ⟨⟨rfl, rfl⟩ | h, hfeed⟩
    · exact .inl ⟨rfl, rfl, hfeed⟩
    · exact .inr ⟨h, hfeed⟩
  · rintro (⟨rfl, rfl, hfeed⟩ | h)
    · exact ⟨.inl ⟨rfl, rfl⟩, hfeed⟩
    · exact ⟨.inr h.1, h.2⟩

/-- A line end is made at a seam between a carriage return and a line feed. -/
theorem makesLineEnd_iff :
    MakesLineEnd front back ↔ front.getLast? = some 0x0D ∧ back.head? = some 0x0A := by
  rw [MakesLineEnd, List.getLast?_eq_some_iff, List.head?_eq_some_iff]
  exact and_congr (exists_congr fun _ => eq_comm) (exists_congr fun _ => eq_comm)

/-- What stands further away does not undo a section end. -/
theorem MakesSectionEnd.extend (h : MakesSectionEnd front back) (w r : Bytes) :
    MakesSectionEnd (w ++ front) (back ++ r) :=
  h.imp
    (fun h => ⟨h.1.trans (List.suffix_append w front), h.2.trans (List.prefix_append back r)⟩)
    fun h => ⟨h.1.trans (List.suffix_append w front), h.2.trans (List.prefix_append back r)⟩

theorem getLast?_of_suffix {b : UInt8} (h : [b] <:+ front) : front.getLast? = some b := by
  obtain ⟨t, rfl⟩ := h
  simp

theorem MakesSectionEnd.getLast? (h : MakesSectionEnd front back) :
    front.getLast? = some 0x5D := by
  rcases h with h | h
  · exact getLast?_of_suffix (List.IsSuffix.trans ⟨[0x5D], rfl⟩ h.1)
  · exact getLast?_of_suffix h.1

end Seams

namespace Bytes

/-- Characters of texts without stray bytes stand side by side when the texts do. -/
theorem chars_append {p : Bytes} (h : ∀ c ∈ chars p, c ≠ none) (q : Bytes) :
    chars (p ++ q) = chars p ++ chars q := by
  induction hn : p.length using Nat.strong_induction_on generalizing p with
  | _ n ih =>
      cases p with
      | nil => rfl
      | cons a s =>
          cases hread : headChar? (a :: s) with
          | none => exact absurd rfl (h none (by simp [chars, charsAfter, hread]))
          | some x =>
              obtain ⟨c, k⟩ := x
              obtain ⟨tail, rest, rfl, rfl, -, hsame⟩ := headChar?_eq_some hread
              have hcut : ∀ u, chars (a :: (tail ++ u)) = some c :: chars u := by
                intro u
                rw [chars, charsAfter, hsame u]
                dsimp only
                rw [Nat.add_sub_cancel, charsAfter_length]
                rfl
              have hrest : ∀ x ∈ chars rest, x ≠ none := fun x hx =>
                h x (by rw [hcut]; exact List.mem_cons_of_mem _ hx)
              have hlt : rest.length < n := by
                rw [← hn, List.length_cons, List.length_append]
                omega
              rw [List.cons_append, List.append_assoc, hcut, hcut, ih rest.length hlt hrest rfl,
                List.cons_append]

end Bytes

namespace Xml

/-- Bare text that is read to its end, and what is read from it. -/
inductive Reads : Bytes → Bytes → Prop
  | nil : Reads [] []
  | entity {w bytes raw data : Bytes} (reads : ∀ rest, readEntity (w ++ rest) = .ok (bytes, rest))
      (entity : ∀ b ∈ w, isEntityByte b = true) (next : Reads raw data) :
      Reads (0x26 :: w ++ raw) (bytes ++ data)
  | lineEnd {raw data : Bytes} (next : Reads raw data) : Reads (0x0D :: 0x0A :: raw) (0x0A :: data)
  | lone {raw data : Bytes} (no_feed : ∀ t, raw ≠ 0x0A :: t) (next : Reads raw data) :
      Reads (0x0D :: raw) (0x0A :: data)
  | plain {b : UInt8} {raw data : Bytes} (inner : Inner .content b raw) (no_amp : b ≠ 0x26)
      (no_return : b ≠ 0x0D) (next : Reads raw data) : Reads (b :: raw) (b :: data)

section Reading

variable {raw raw' data rest s : Bytes}

/-- What the reader takes as data is a run of pieces of data. -/
theorem reads_of_readData (h : readData .content raw = .ok (data, [])) : Reads raw data := by
  generalize hmode : Mode.content = mode at h
  fun_induction readData mode raw generalizing data with
  | case1 => cases h
  | case2 =>
      cases h
      exact .nil
  | case3 b s hmark =>
      subst hmode
      simp at hmark
  | case4 => cases h
  | case5 => cases h
  | case6 => cases h
  | case7 b s h1 h2 h3 h4 hquote =>
      subst hmode
      cases hquote
  | case8 => cases h
  | case9 => cases h
  | case10 b s h1 h2 h3 h4 h5 hamp bytes t hentity hlen data' rest'' hdata ih =>
      cases h
      rw [Bool.and_eq_true, decide_eq_true_eq] at hamp
      obtain ⟨rfl, -⟩ := hamp
      obtain ⟨w, rfl, hw, -, hcut⟩ := readEntity_cut hentity
      exact .entity hcut hw (ih hdata)
  | case11 b s h1 h2 h3 h4 h5 hamp bytes t hentity hlen =>
      obtain ⟨w, rfl, -⟩ := readEntity_cut hentity
      exact absurd (by simp) hlen
  | case12 s h3 h4 h5 h6 h1 h2 ih =>
      obtain ⟨data', hdata, rfl⟩ := eq_ok_of_map (w := [0x0A]) h
      exact .lineEnd (ih hdata)
  | case13 s hfeed h3 h4 h5 h6 h1 h2 ih =>
      obtain ⟨data', hdata, rfl⟩ := eq_ok_of_map (w := [0x0A]) h
      exact .lone hfeed (ih hdata)
  | case14 b s h1 h2 h3 h4 h5 h6 h7 ih =>
      obtain ⟨data', hdata, rfl⟩ := eq_ok_of_map (w := [b]) h
      subst hmode
      refine .plain (Inner.of_guards h1 h2 h4 h5) ?_ h7 (ih hdata)
      rintro rfl
      exact h6 (by simp)

/-- What is left to read behind a seam: a line feed may be read as part of a line end. -/
def unread (front back : Bytes) : Bytes := if MakesLineEnd front back then back.tail else back

/-- Fronts that make a line end alike leave the same unread. -/
theorem unread_congr {front front' back : Bytes}
    (h : MakesLineEnd front back ↔ MakesLineEnd front' back) :
    unread front back = unread front' back := if_congr h rfl rfl

theorem map_map {r : Except Stop (Bytes × Bytes)} (v w : Bytes) :
    ((r.map fun x => (w ++ x.1, x.2)).map fun x => (v ++ x.1, x.2)) =
      r.map fun x => (v ++ w ++ x.1, x.2) := by
  cases r with
  | error stop => rfl
  | ok x => simp [Except.map]

/-- A byte is no fault when it starts no section end. -/
theorem inner_content {b : UInt8} (hless : b ≠ 0x3C)
    (hmark : [b] ++ s.take 2 ≠ [0x5D, 0x5D, 0x3E]) : Inner .content b s where
  no_mark := fun h => absurd h hmark
  no_less := fun h => absurd h hless
  no_quote := by simp

/-- A byte is no fault before a longer text, unless the seam makes one. -/
theorem Inner.append {b : UInt8} (h : Inner .content b raw) (hend : ¬MakesSectionEnd (b :: raw) s) :
    Inner .content b (raw ++ s) := by
  refine inner_content (fun hless => by cases h.no_less hless) fun hmark => ?_
  by_cases hlen : raw.length < 2
  · exact hend (makesSectionEnd_cons.mpr (.inl ⟨hlen, hmark⟩))
  · rw [List.take_append_of_le_length (by omega)] at hmark
    exact (h.no_mark hmark).2 rfl

/-- No line feed follows a lone carriage return, unless it stands behind the seam. -/
theorem append_ne_feed (no_feed : ∀ t, raw ≠ 0x0A :: t) (h : raw = [] → ¬[0x0A] <+: s) :
    ∀ t, raw ++ s ≠ 0x0A :: t := by
  intro t heq
  cases raw with
  | nil => exact h rfl ⟨t, heq.symm⟩
  | cons b raw => exact no_feed raw (by rw [(List.cons.inj heq).1])

theorem getLast?_entity {w : Bytes} {b : UInt8} (hw : ∀ b ∈ w, isEntityByte b = true)
    (hamp : b ≠ 0x26) (hb : isEntityByte b = false) : (0x26 :: w).getLast? ≠ some b := by
  intro hlast
  rcases List.mem_cons.mp (List.mem_of_getLast? hlast) with h | h
  · exact hamp h
  · rw [hw b h] at hb
    cases hb

/-- **Reading across a seam.** -/
theorem Reads.append (h : Reads raw data) (hend : ¬MakesSectionEnd raw s) :
    readData .content (raw ++ s) =
      (readData .content (unread raw s)).map fun x => (data ++ x.1, x.2) := by
  induction h generalizing s with
  | nil =>
      have hno : ¬MakesLineEnd [] s := by simp [MakesLineEnd]
      rw [unread, if_neg hno, List.nil_append]
      cases readData .content s <;> rfl
  | @entity w bytes raw data reads entity next ih =>
      rw [makesSectionEnd_append (getLast?_entity entity (by decide) (by decide))] at hend
      have hreturn : MakesLineEnd (0x26 :: w ++ raw) s ↔ MakesLineEnd raw s :=
        makesLineEnd_append (getLast?_entity entity (by decide) (by decide))
      rw [unread_congr hreturn, List.append_assoc, List.cons_append,
        readData_entity (inner_content (by decide) (by simp)) (by simp) (reads _) (by simp), ih hend,
        map_map]
  | @lineEnd raw data next ih =>
      have hbracket : MakesSectionEnd (0x0D :: 0x0A :: raw) s ↔ MakesSectionEnd raw s :=
        makesSectionEnd_append (w := [0x0D, 0x0A]) (by decide)
      have hreturn : MakesLineEnd (0x0D :: 0x0A :: raw) s ↔ MakesLineEnd raw s :=
        makesLineEnd_append (w := [0x0D, 0x0A]) (by decide)
      rw [hbracket] at hend
      rw [unread_congr hreturn, List.cons_append, List.cons_append,
        readData_return_feed (inner_content (by decide) (by simp)), ih hend]
      exact map_map [0x0A] data
  | @lone raw data no_feed next ih =>
      have hbracket : MakesSectionEnd (0x0D :: raw) s ↔ MakesSectionEnd raw s :=
        makesSectionEnd_append (w := [0x0D]) (by decide)
      rw [hbracket] at hend
      by_cases hline : raw = [] ∧ [0x0A] <+: s
      · obtain ⟨rfl, t, rfl⟩ := hline
        have hrest := ih (s := t) (by simp [MakesSectionEnd])
        rw [unread, if_neg (by simp [MakesLineEnd]), List.nil_append] at hrest
        rw [unread, if_pos ⟨List.suffix_refl _, List.prefix_append _ _⟩]
        change readData .content (0x0D :: 0x0A :: t) = (readData .content t).map _
        rw [readData_return_feed (inner_content (by decide) (by simp))]
        exact (congrArg _ hrest).trans (map_map [0x0A] data)
      · have hfeed := append_ne_feed no_feed fun hnil hfeed => hline ⟨hnil, hfeed⟩
        have hreturn : MakesLineEnd (0x0D :: raw) s ↔ MakesLineEnd raw s :=
          makesLineEnd_cons.trans (or_iff_right fun h => hline ⟨h.1, h.2.2⟩)
        rw [unread_congr hreturn, List.cons_append,
          readData_return (inner_content (by decide) (by simp)) hfeed, ih hend]
        exact map_map [0x0A] data
  | @plain b raw data inner no_amp no_return next ih =>
      have hend' : ¬MakesSectionEnd raw s := fun h => hend (makesSectionEnd_cons.mpr (.inr h))
      have hreturn : MakesLineEnd (b :: raw) s ↔ MakesLineEnd raw s :=
        makesLineEnd_append (w := [b]) (by simpa using no_return)
      rw [unread_congr hreturn, List.cons_append,
        readData_plain (inner.append hend) (fun h => absurd h no_amp) no_return, ih hend']
      exact map_map [b] data

/-- **A fault across a seam.** -/
theorem Reads.fault (h : Reads raw data) (hend : MakesSectionEnd raw s) :
    ∃ stop, readData .content (raw ++ s) = .error stop := by
  induction h with
  | nil => simp [MakesSectionEnd] at hend
  | @entity w bytes raw data reads entity next ih =>
      rw [makesSectionEnd_append (getLast?_entity entity (by decide) (by decide))] at hend
      obtain ⟨stop, hstop⟩ := ih hend
      refine ⟨stop, ?_⟩
      rw [List.append_assoc, List.cons_append,
        readData_entity (inner_content (by decide) (by simp)) (by simp) (reads _) (by simp), hstop]
      rfl
  | @lineEnd raw data next ih =>
      obtain ⟨stop, hstop⟩ := ih ((makesSectionEnd_append (w := [0x0D, 0x0A]) (by decide)).mp hend)
      refine ⟨stop, ?_⟩
      rw [List.cons_append, List.cons_append,
        readData_return_feed (inner_content (by decide) (by simp)), hstop]
      rfl
  | @lone raw data no_feed next ih =>
      have hend' := (makesSectionEnd_append (w := [0x0D]) (by decide)).mp hend
      obtain ⟨stop, hstop⟩ := ih hend'
      have hfeed := append_ne_feed (s := s) no_feed fun hnil => by
        subst hnil
        simp [MakesSectionEnd] at hend'
      refine ⟨stop, ?_⟩
      rw [List.cons_append, readData_return (inner_content (by decide) (by simp)) hfeed, hstop]
      rfl
  | @plain b raw data inner no_amp no_return next ih =>
      have hless : b ≠ 0x3C := fun h => by cases inner.no_less h
      by_cases hmark : [b] ++ (raw ++ s).take 2 = [0x5D, 0x5D, 0x3E]
      · -- The section end starts here.
        rw [List.cons_append, readData.eq_def]
        simp [hmark]
      · have hend' : MakesSectionEnd raw s :=
          (makesSectionEnd_cons.mp hend).resolve_left fun h => hmark h.2
        obtain ⟨stop, hstop⟩ := ih hend'
        refine ⟨stop, ?_⟩
        rw [List.cons_append,
          readData_plain (inner_content hless hmark) (fun h => absurd h no_amp) no_return, hstop]
        rfl

theorem Reads.of_cons {b : UInt8} (h : Reads (b :: raw) data) (hamp : b ≠ 0x26)
    (hreturn : b ≠ 0x0D) : ∃ data', Reads raw data' ∧ data = b :: data' := by
  generalize hs : b :: raw = s at h
  cases h with
  | nil => cases hs
  | entity reads entity next => exact absurd (List.cons.inj hs).1 hamp
  | lineEnd next => exact absurd (List.cons.inj hs).1 hreturn
  | lone no_feed next => exact absurd (List.cons.inj hs).1 hreturn
  | plain inner no_amp no_return next =>
      obtain ⟨rfl, rfl⟩ := List.cons.inj hs
      exact ⟨_, next, rfl⟩

/-- Bare text is read the same before every tag. -/
theorem Reads.ends (h : Reads raw data) (hrest : Mode.Ends .content rest) :
    readData .content (raw ++ rest) = .ok (data, rest) := by
  have hno : ∀ {b : UInt8} {m : Bytes}, b ≠ 0x3C → ¬b :: m <+: rest := by
    rintro b m hb ⟨t, rfl⟩
    exact hb (hrest rfl b rfl)
  have hend : ¬MakesSectionEnd raw rest := by
    rintro (h | h)
    · exact hno (by decide) h.2
    · exact hno (by decide) h.2
  have hline : ¬MakesLineEnd raw rest := fun h => hno (by decide) h.2
  rw [h.append hend, unread, if_neg hline,
    show readData .content rest = .ok ([], rest) from readData_mark Mode.proper_content hrest]
  simp [Except.map]

end Reading

section Texts

variable {raw raw' data data' : Bytes} {v v' : String}

/-- A written text is a run of data. -/
theorem Writes.reads (h : Writes .content raw v) :
    ∃ data, Reads raw data ∧ charFault? (Bytes.chars data) = none ∧ v = Bytes.toText data := by
  obtain ⟨data, hdata, hfault, htext⟩ := readText_eq_ok.mp (h.2 [] (by simp [Mode.Ends]))
  rw [Mode.mark, List.append_nil, List.append_nil] at hdata
  exact ⟨data, reads_of_readData hdata, hfault, htext⟩

/-- A run of data with allowed characters is a written text. -/
theorem Reads.writes (h : Reads raw data) (hfault : charFault? (Bytes.chars data) = none) :
    Writes .content raw (Bytes.toText data) where
  left := by simp
  right := by
    intro rest hrest
    rw [Mode.mark, List.append_nil]
    exact readText_eq_ok.mpr ⟨data, h.ends hrest, hfault, rfl⟩

theorem chars_append_of_charFault? (h : charFault? (Bytes.chars data) = none) (data' : Bytes) :
    Bytes.chars (data ++ data') = Bytes.chars data ++ Bytes.chars data' := by
  refine Bytes.chars_append (fun c hc hnone => ?_) data'
  have := List.findSome?_eq_none_iff.mp h c hc
  rw [hnone] at this
  cases this

/-- Two texts of allowed characters are one. -/
theorem charFault?_append (h : charFault? (Bytes.chars data) = none)
    (h' : charFault? (Bytes.chars data') = none) :
    charFault? (Bytes.chars (data ++ data')) = none := by
  rw [chars_append_of_charFault? h, charFault?, List.findSome?_append]
  change (charFault? _).or (charFault? _) = none
  rw [h, h']
  rfl

/-- A text of allowed characters is decoded apart from what follows. -/
theorem toText_append {d : Bytes} (h : charFault? (Bytes.chars d) = none) (d' : Bytes) :
    Bytes.toText (d ++ d') = Bytes.toText d ++ Bytes.toText d' := by
  rw [Bytes.toText, chars_append_of_charFault? h, List.map_append, String.ofList_append]
  rfl

/-- **Joining bare text.**  What is read from the back is put behind what is read from the front,
without its first line feed when this belongs to a line end of both. -/
theorem Writes.append (h : Writes .content raw v) (h' : Writes .content raw' v')
    (hend : ¬MakesSectionEnd raw raw') :
    ∃ u, Writes .content (raw ++ raw') (v ++ u) ∧
      v' = if MakesLineEnd raw raw' then "\n" ++ u else u := by
  obtain ⟨data, hreads, hfault, rfl⟩ := h.reads
  obtain ⟨data', hreads', hfault', rfl⟩ := h'.reads
  have hjoin : ∀ rest, Reads (unread raw raw') rest → Reads (raw ++ raw') (data ++ rest) := by
    intro rest hrest
    have hread : readData .content (unread raw raw' ++ []) = .ok (rest, []) :=
      hrest.ends (by simp [Mode.Ends])
    rw [List.append_nil] at hread
    refine reads_of_readData ?_
    rw [hreads.append hend, hread]
    rfl
  by_cases hline : MakesLineEnd raw raw'
  · obtain ⟨t, rfl⟩ := hline.2
    obtain ⟨tail, htail, rfl⟩ := Reads.of_cons hreads' (by decide) (by decide)
    have hfeed : Bytes.chars (0x0A :: tail) = some '\n' :: Bytes.chars tail :=
      Bytes.chars_append (p := [0x0A]) (by decide) tail
    have hfault'' : charFault? (Bytes.chars tail) = none := by
      rw [hfeed, charFault?, List.findSome?_cons] at hfault'
      exact hfault'
    rw [unread, if_pos hline] at hjoin
    refine ⟨Bytes.toText tail, ?_, ?_⟩
    · rw [← toText_append hfault]
      exact (hjoin tail htail).writes (charFault?_append hfault hfault'')
    · rw [if_pos hline]
      exact toText_append (d := [0x0A]) (by decide) tail
  · rw [unread, if_neg hline] at hjoin
    refine ⟨Bytes.toText data', ?_, (if_neg hline).symm⟩
    rw [← toText_append hfault]
    exact (hjoin data' hreads').writes (charFault?_append hfault hfault')

end Texts

section Closing

variable {bound : Nat} {s rest : Bytes} {token : Token}

theorem closing_of_readInstruction (h : readInstruction s = .ok (token, rest)) :
    0x3E :: rest <:+ s := by
  unfold readInstruction at h
  cases hname : readName s with
  | error stop =>
      rw [hname] at h
      cases h
  | ok x =>
      obtain ⟨v, r⟩ := x
      rw [hname] at h
      simp only [bind, Except.bind] at h
      cases v with
      | none => cases h
      | some target =>
          obtain ⟨n, rfl, -⟩ := readName_eq_some.mp hname
          obtain ⟨blank, hr, -⟩ := exists_skipSpace r
          dsimp only at h
          cases hcut : cutAt [0x3F, 0x3E] (skipSpace r) with
          | none =>
              rw [hcut] at h
              cases h
          | some y =>
              rw [hcut] at h
              dsimp only at h
              split at h
              · cases h
              · cases h
                rw [(cutAt_cut hcut).1] at hr
                exact ⟨n ++ (blank ++ (y.1 ++ [0x3F])), by rw [hr]; simp⟩

theorem closing_of_readComment (h : readComment s = .ok (token, rest)) : 0x3E :: rest <:+ s := by
  fun_induction readComment s with
  | case1 => cases h
  | case2 => cases h
  | case3 t =>
      cases h
      exact ⟨[0x2D, 0x2D], rfl⟩
  | case4 => cases h
  | case5 b t h1 h2 h3 ih => exact (ih h).trans (List.suffix_cons b t)

theorem closing_of_readDeclaration {quote : Option UInt8} {depth fuel : Nat}
    (h : readDeclaration quote depth fuel s = .ok (token, rest)) : 0x3E :: rest <:+ s := by
  fun_induction readDeclaration quote depth fuel s with
  | case1 => cases h
  | case2 => cases h
  | case3 quote depth fuel b s hend =>
      cases h
      obtain rfl : b = 0x3E := by
        simp at hend
        exact hend.1.2
      exact List.suffix_refl _
  | case4 depth fuel b s h1 ih => exact (ih h).trans (List.suffix_cons b s)
  | case5 quote depth fuel b s h1 h2 h3 ih => exact (ih h).trans (List.suffix_cons b s)
  | case6 quote depth fuel b s h1 h2 h3 h4 ih => exact (ih h).trans (List.suffix_cons b s)
  | case7 quote depth fuel s h3 h1 h2 h4 ih => exact (ih h).trans (List.suffix_cons _ s)
  | case8 quote depth fuel s h3 hopen h1 h2 h4 h5 ih => exact (ih h).trans (List.suffix_cons _ s)
  | case9 => cases h
  | case10 quote depth fuel s h3 inner hopen content t hcut h1 h2 h4 h5 ih =>
      obtain rfl := stripFront?_eq_some.mp hopen
      rw [(cutAt_cut hcut).1]
      refine (ih h).trans ⟨0x3C :: (Bytes.ofString "!--" ++ (content ++ Bytes.ofString "-->")), ?_⟩
      simp
  | case11 quote depth fuel b s h1 h2 h3 h4 h5 h6 ih => exact (ih h).trans (List.suffix_cons b s)

/-- A marked piece that is no text ends with a closing bracket. -/
theorem closing_of_readMarked (h : readMarked bound s = .ok (.other, rest)) :
    0x3E :: rest <:+ s := by
  unfold readMarked at h
  split at h
  · cases h
  · cases h
  · next t => exact (closing_of_readComment h).trans ⟨[0x2D, 0x2D], rfl⟩
  · cases h
  · obtain ⟨raw, v, -, hv, -⟩ := readSection_cut h
    cases hv
  · next b t _ _ _ _ => exact (closing_of_readDeclaration h).trans (List.suffix_cons b t)

/-- What matters no more ends with a greater-than sign. -/
theorem closing_of_readToken (h : readToken bound s = .ok (.other, rest)) : 0x3E :: rest <:+ s := by
  unfold readToken at h
  split at h
  · cases h
  · obtain ⟨e, -, he⟩ := readEndTag_eq_ok.mp h
    cases he
  · next t => exact (closing_of_readInstruction h).trans ⟨[0x3C, 0x3F], rfl⟩
  · next t => exact (closing_of_readMarked h).trans ⟨[0x3C, 0x21], rfl⟩
  · obtain ⟨e, -, he⟩ := readStartTag_cut h
    cases he
  · cases htext : readText .content s with
    | error stop =>
        rw [htext] at h
        cases h
    | ok x =>
        rw [htext] at h
        cases h

/-- All but bare text ends with a greater-than sign. -/
theorem Piece.getLast?_bytes {p : Piece} (h : p.isBare = false) : p.bytes.getLast? = some 0x3E := by
  cases p with
  | start t =>
      have hclosing : [0x3E] <:+ closing t.selfClosing := by cases t.selfClosing <;> decide
      refine getLast?_of_suffix (hclosing.trans ⟨0x3C :: (t.name ++ t.inside), ?_⟩)
      simp [bytes, WrittenTag.bytes, WrittenTag.core]
  | stop e =>
      refine getLast?_of_suffix ⟨0x3C :: 0x2F :: (e.name ++ e.blank), ?_⟩
      simp [bytes, WrittenEnd.bytes, WrittenEnd.core]
  | bare raw s ne_nil writes => cases h
  | data raw s writes => simp [bytes, Mode.mark]
  | other w takes =>
      have hclosing := closing_of_readToken (takes [] _ (Nat.le_refl _))
      rw [List.append_nil] at hclosing
      exact getLast?_of_suffix hclosing

/-- A row of pieces ends with a greater-than sign, unless its last piece is bare text. -/
theorem getLast?_written {ps : List Piece} (h : ∀ p ∈ ps.getLast?, p.isBare = false) :
    ∀ b ∈ (written ps).getLast?, b = 0x3E := by
  intro b hb
  rcases List.eq_nil_or_concat' ps with rfl | ⟨ps, p, rfl⟩
  · cases hb
  · have hp := Piece.getLast?_bytes (h p (by simp))
    simp [hp] at hb
    exact hb.symm

/-- A row of pieces starts with an angle bracket, unless its first piece is bare text. -/
theorem head?_written {ps : List Piece} (h : ∀ p ∈ ps.head?, p.isBare = false) :
    ∀ b ∈ (written ps).head?, b = 0x3C := by
  intro b hb
  cases ps with
  | nil => cases hb
  | cons p ps =>
      have hp := Piece.head?_bytes (h p rfl)
      simp [hp] at hb
      exact hb.symm

end Closing

section Fault

variable {ps qs : List Piece} {q : Piece} {back : Bytes}

/-- What is read of a text in pieces does not depend on how it is cut. -/
theorem Apart.peel (h : Apart (ps ++ [q])) (hqs : Apart qs)
    (hsame : written qs = written ps ++ (q.bytes ++ back)) :
    ∃ rs, Apart rs ∧ written rs = q.bytes ++ back := by
  induction ps generalizing qs with
  | nil => exact ⟨qs, hqs, hsame⟩
  | cons p ps ih =>
      have hne : written (ps ++ [q]) ≠ [] := by simp [q.bytes_ne_nil]
      have hbefore : p.Before (written ps ++ (q.bytes ++ back)) := by
        intro hbare hmode b hb
        refine h.before hbare hmode b ?_
        rw [← List.append_assoc, List.head?_append] at hb
        cases hfirst : written (ps ++ [q]) with
        | nil => exact absurd hfirst hne
        | cons c t =>
            rw [written_append, written_cons, written_nil, List.append_nil] at hfirst
            rwa [hfirst] at hb
      cases qs with
      | nil => simp [p.bytes_ne_nil] at hsame
      | cons r rs =>
          rw [written_cons, written_cons, List.append_assoc] at hsame
          have hread := r.readToken_bytes hqs.before (Nat.le_refl _)
          have hread' := p.readToken_bytes hbefore (Nat.le_refl _)
          rw [hsame, hread'] at hread
          exact ih h.tail hqs.tail (Prod.mk.inj (Except.ok.inj hread)).2.symm

/-- **A section end behind a row of pieces.**  Nothing that goes on so is a row of pieces. -/
theorem Apart.fault (h : Apart ps) (hend : MakesSectionEnd (written ps) back) (hqs : Apart qs) :
    written qs ≠ written ps ++ back := by
  intro hsame
  rcases List.eq_nil_or_concat' ps with rfl | ⟨ps, q, rfl⟩
  · simp [MakesSectionEnd] at hend
  · cases q with
    | bare raw s ne_nil writes =>
        have hlast : ∀ p ∈ ps.getLast?, p.isBare = false := fun p hp => by
          by_contra hbare
          have := (List.isChain_append.mp h).2.2 p hp _ rfl (by simpa using hbare)
          cases this
        have hbracket : (written ps).getLast? ≠ some 0x5D := fun hb =>
          absurd (getLast?_written hlast _ hb) (by decide)
        rw [written_append, written_cons, written_nil, List.append_nil] at hend hsame
        rw [List.append_assoc] at hsame
        obtain ⟨data, hreads, -⟩ := writes.reads
        obtain ⟨stop, hstop⟩ := hreads.fault ((makesSectionEnd_append hbracket).mp hend)
        obtain ⟨rs, hrs, hrest⟩ := h.peel hqs hsame
        obtain ⟨c, u, rfl⟩ := List.exists_cons_of_ne_nil ne_nil
        cases rs with
        | nil => simp [Piece.bytes] at hrest
        | cons r rs =>
            have hread := r.readToken_bytes hrs.before (Nat.le_refl _)
            rw [← written_cons, hrest, Piece.bytes, List.cons_append,
              readToken_bare (writes.head_ne rfl), readText, ← List.cons_append, hstop] at hread
            cases hread
    | start | stop | data | other =>
        exact absurd (getLast?_written (by simp [Piece.isBare]) _ hend.getLast?) (by decide)

end Fault

end Xml
end InstallerLint
