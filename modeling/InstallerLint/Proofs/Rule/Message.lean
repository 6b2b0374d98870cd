import InstallerLint.Rule.Engine
import Mathlib.Data.List.Infix
import Mathlib.Tactic.SplitIfs

/-!
# Messages are read once

A message is read from left to right: up to the first two opening braces, on to the first two
closing braces behind them, and so on with what follows.  `Scan` says so without a search: it
tells the placeholders of a message with the text before each of them, and the rest, in which no
whole placeholder stands.  Every message is scanned in exactly one way (`Scan.unique`,
`exists_scan`).

**Putting messages together.**  When the rest of a message holds no two opening braces, and the
seam makes none, a scan goes on into what is put behind it (`Scan.append`).  So rendering takes
messages that are put together to what they show, put together; what a placeholder shows is put
there as it is (`render_single_pass`).
-/

namespace InstallerLint

namespace Find

/-- The first place where a text stands in another is between `before` and `after`. -/
structure First (p cs before after : List Char) : Prop where
  eq : cs = before ++ (p ++ after)
  least : ∀ before' after', cs = before' ++ (p ++ after') → before.length ≤ before'.length

section First

variable {p cs before after : List Char} {c : Char}

theorem after?_eq_some_iff : after? p cs = some after ↔ cs = p ++ after := by
  induction p generalizing cs with
  | nil => simp [after?]
  | cons a p ih =>
      cases cs with
      | nil => simp [after?]
      | cons c cs =>
          rw [after?]
          split_ifs with hac
          · rw [ih, hac, List.cons_append, List.cons.injEq, and_iff_right rfl]
          · simp [Ne.symm hac]

theorem first_front : First p (p ++ cs) before after ↔ before = [] ∧ after = cs := by
  constructor
  · intro h
    have hnil : before = [] := List.eq_nil_of_length_eq_zero (Nat.le_zero.mp (h.least [] cs rfl))
    have heq := h.eq
    rw [hnil, List.nil_append, List.append_cancel_left_eq] at heq
    exact ⟨hnil, heq.symm⟩
  · rintro ⟨rfl, rfl⟩
    exact ⟨rfl, fun _ _ _ => Nat.zero_le _⟩

theorem first_cons (h : ∀ after', c :: cs ≠ p ++ after') :
    First p (c :: cs) before after ↔ ∃ before', before = c :: before' ∧ First p cs before' after := by
  constructor
  · intro hfirst
    cases before with
    | nil => exact absurd hfirst.eq (h after)
    | cons b before =>
        obtain ⟨rfl, heq⟩ := List.cons.inj hfirst.eq
        refine ⟨before, rfl, heq, fun before' after' heq' => ?_⟩
        exact Nat.le_of_succ_le_succ (hfirst.least (c :: before') after' (congrArg (c :: ·) heq'))
  · rintro ⟨before, rfl, hfirst⟩
    refine ⟨congrArg (c :: ·) hfirst.eq, fun before' after' heq => ?_⟩
    cases before' with
    | nil => exact absurd heq (h after')
    | cons b before' =>
        exact Nat.succ_le_succ (hfirst.least before' after' (List.cons.inj heq).2)

/-- Cutting finds the first place. -/
theorem cut?_eq_some_iff : cut? p cs = some (before, after) ↔ First p cs before after := by
  induction cs generalizing before with
  | nil =>
      rw [cut?, Option.map_eq_some_iff]
      simp only [after?_eq_some_iff, Prod.mk.injEq]
      constructor
      · rintro ⟨rest, heq, rfl, rfl⟩
        exact ⟨heq, fun _ _ _ => Nat.zero_le _⟩
      · intro h
        obtain ⟨hbefore, heq⟩ := List.append_eq_nil_iff.mp h.eq.symm
        exact ⟨after, heq.symm, hbefore.symm, rfl⟩
  | cons c cs ih =>
      rw [cut?]
      cases hafter : after? p (c :: cs) with
      | some rest =>
          rw [after?_eq_some_iff.mp hafter, first_front]
          simp [eq_comm]
      | none =>
          have hfront : ∀ after', c :: cs ≠ p ++ after' := fun after' heq => by
            rw [after?_eq_some_iff.mpr heq] at hafter
            cases hafter
          rw [first_cons hfront, Option.map_eq_some_iff]
          constructor
          · rintro ⟨⟨before', rest⟩, hcut, heq⟩
            cases heq
            exact ⟨before', rfl, ih.mp hcut⟩
          · rintro ⟨before', rfl, hfirst⟩
            exact ⟨_, ih.mpr hfirst, rfl⟩

theorem cut?_eq_none_iff : cut? p cs = none ↔ ¬p <:+: cs := by
  induction cs with
  | nil =>
      rw [cut?, Option.map_eq_none_iff, List.infix_nil]
      cases p <;> simp [after?]
  | cons c cs ih =>
      rw [cut?, List.infix_cons_iff, not_or, ← ih]
      cases hafter : after? p (c :: cs) with
      | some rest =>
          have hfront : p <+: c :: cs := ⟨rest, (after?_eq_some_iff.mp hafter).symm⟩
          simp [hfront]
      | none =>
          have hfront : ¬p <+: c :: cs := by
            rintro ⟨rest, heq⟩
            rw [after?_eq_some_iff.mpr heq.symm] at hafter
            cases hafter
          simp [hfront]

theorem First.unique {before' after' : List Char} (h : First p cs before after)
    (h' : First p cs before' after') : before = before' ∧ after = after' := by
  rw [← cut?_eq_some_iff] at h h'
  rw [h] at h'
  cases h'
  exact ⟨rfl, rfl⟩

/-- What is put behind a text does not change the first place. -/
theorem First.append (h : First p cs before after) (more : List Char) :
    First p (cs ++ more) before (after ++ more) := by
  refine ⟨by rw [h.eq]; simp, fun before' after' heq => ?_⟩
  by_contra hlt
  have hlong : before' ++ p <+: cs ++ more := ⟨after', by rw [heq, List.append_assoc]⟩
  have hlength : (before' ++ p).length ≤ cs.length := by
    rw [h.eq]
    simp
    omega
  obtain ⟨rest, hrest⟩ := List.prefix_of_prefix_length_le hlong (List.prefix_append cs more) hlength
  exact hlt (h.least before' rest (by rw [← hrest, List.append_assoc]))

end First

end Find

namespace Message

open Find

/-- A message is scanned from left to right: its placeholders with the text before each of them, and
the rest, in which no whole placeholder stands. -/
inductive Scan : (message : List Char) → List Piece → (rest : List Char) → Prop where
  | rest {cs : List Char}
      (none_whole : ∀ before inside after,
        cs ≠ before ++ (opening ++ (inside ++ (closing ++ after)))) :
      Scan cs [] cs
  | placeholder {cs before behind inside after rest : List Char} {ps : List Piece}
      (opened : First opening cs before behind) (closed : First closing behind inside after)
      (more : Scan after ps rest) :
      Scan cs (.text before :: .name inside :: ps) rest

/-- Braces that open a placeholder would come about at a seam. -/
def Meets (s t : List Char) : Prop := s.getLast? = some '\x7b' ∧ t.head? = some '\x7b'

/-- A piece as it is written. -/
def Piece.written : Piece → List Char
  | .text cs => cs
  | .name cs => opening ++ cs ++ closing

section Scan

variable {s t cs rest before after : List Char} {ps : List Piece}

theorem Scan.pieces_eq (h : Scan cs ps rest) : pieces cs = ps ++ [.text rest] := by
  induction h with
  | @rest cs none_whole =>
      rw [pieces]
      split
      · rfl
      · rename_i before behind hopen
        split
        · rfl
        · rename_i inside after hclose
          refine absurd ?_ (none_whole before inside after)
          rw [(cut?_eq_some_iff.mp hopen).eq, (cut?_eq_some_iff.mp hclose).eq]
  | @placeholder cs before behind inside after rest ps opened closed more ih =>
      rw [pieces]
      split
      · rename_i hopen
        rw [cut?_eq_some_iff.mpr opened] at hopen
        cases hopen
      · rename_i before' behind' hopen
        obtain ⟨rfl, rfl⟩ := opened.unique (cut?_eq_some_iff.mp hopen)
        split
        · rename_i hclose
          rw [cut?_eq_some_iff.mpr closed] at hclose
          cases hclose
        · rename_i inside' after' hclose
          obtain ⟨rfl, rfl⟩ := closed.unique (cut?_eq_some_iff.mp hclose)
          rw [ih]
          rfl

/-- A message is scanned in one way. -/
theorem Scan.unique {ps' : List Piece} {rest' : List Char} (h : Scan cs ps rest)
    (h' : Scan cs ps' rest') : ps = ps' ∧ rest = rest' := by
  have heq := h.pieces_eq.symm.trans h'.pieces_eq
  obtain ⟨hps, hrest⟩ := List.append_inj' heq rfl
  exact ⟨hps, Piece.text.inj (List.cons.inj hrest).1⟩

/-- No whole placeholder stands where no braces open, or none close behind those that open first. -/
theorem none_whole_of_none (h : ¬opening <:+: cs) (before inside after : List Char) :
    cs ≠ before ++ (opening ++ (inside ++ (closing ++ after))) := by
  rintro rfl
  exact h (List.infix_append' _ _ _)

theorem none_whole_of_first {behind : List Char} (hopen : First opening cs before behind)
    (hclose : ¬closing <:+: behind) (before' inside after : List Char) :
    cs ≠ before' ++ (opening ++ (inside ++ (closing ++ after))) := by
  intro heq
  -- the braces that open first are not behind those of the placeholder
  have hle := hopen.least _ _ heq
  rw [hopen.eq, ← List.append_assoc, ← List.append_assoc before'] at heq
  have hsuffix : inside ++ (closing ++ after) <:+ behind :=
    List.suffix_of_suffix_length_le ⟨before' ++ opening, heq.symm⟩ ⟨before ++ opening, rfl⟩ (by
      have hlength := congrArg List.length heq
      simp only [List.length_append] at hlength ⊢
      omega)
  exact hclose ((List.infix_append' inside closing after).trans hsuffix.isInfix)

/-- Every message is scanned. -/
theorem exists_scan (cs : List Char) : ∃ ps rest, Scan cs ps rest := by
  fun_induction pieces cs with
  | case1 cs hopen => exact ⟨[], cs, .rest (none_whole_of_none (cut?_eq_none_iff.mp hopen))⟩
  | case2 cs before behind hopen hclose =>
      exact ⟨[], cs, .rest (none_whole_of_first (cut?_eq_some_iff.mp hopen)
        (cut?_eq_none_iff.mp hclose))⟩
  | case3 cs before behind hopen inside after hclose _ ih =>
      obtain ⟨ps, rest, hscan⟩ := ih
      exact ⟨_, rest, .placeholder (cut?_eq_some_iff.mp hopen) (cut?_eq_some_iff.mp hclose) hscan⟩

theorem Scan.written_eq (h : Scan cs ps rest) : ps.flatMap Piece.written ++ rest = cs := by
  induction h with
  | rest => rfl
  | placeholder opened closed _ ih =>
      rw [opened.eq, closed.eq, ← ih]
      simp [Piece.written]

end Scan

section Append

variable {s t rest before after : List Char} {ps : List Piece}

/-- Behind a text without opening braces, with none at the seam, braces open in what follows. -/
theorem exists_of_seam (hs : ¬opening <:+: s) (hseam : ¬Meets s t)
    (h : s ++ t = before ++ (opening ++ after)) :
    ∃ front, before = s ++ front ∧ t = front ++ (opening ++ after) := by
  obtain ⟨front, hbefore, ht⟩ | ⟨back, hback, ht⟩ := List.append_eq_append_iff.mp h
  · exact ⟨front, hbefore, ht⟩
  · cases back with
    | nil => exact ⟨[], by simpa using hback.symm, ht.symm⟩
    | cons c back =>
        obtain ⟨rfl, htail⟩ := List.cons.inj ht
        cases back with
        | nil =>
            have hhead : t = '\x7b' :: after := htail.symm
            exact absurd ⟨by rw [hback, List.getLast?_concat], by rw [hhead]; rfl⟩ hseam
        | cons c back =>
            obtain ⟨rfl, -⟩ := List.cons.inj htail
            rw [hback] at hs
            exact absurd (List.infix_append' before opening back) hs

/-- A scan of what follows goes through a text without opening braces in front. -/
theorem Scan.behind_text (hs : ¬opening <:+: s) (hseam : ¬Meets s t) (h : Scan t ps rest) :
    Scan (s ++ t) [] (s ++ rest) ∧ ps = [] ∨
      ∃ before name ps', ps = .text before :: name :: ps' ∧
        Scan (s ++ t) (.text (s ++ before) :: name :: ps') rest := by
  cases h with
  | rest none_whole =>
      refine .inl ⟨.rest fun before inside after heq => ?_, rfl⟩
      obtain ⟨front, -, ht⟩ := exists_of_seam hs hseam heq
      exact none_whole front inside after ht
  | @placeholder _ before behind inside after _ ps opened closed more =>
      refine .inr ⟨before, .name inside, ps, rfl, .placeholder ⟨?_, ?_⟩ closed more⟩
      · rw [opened.eq, List.append_assoc]
      · intro before' after' heq
        obtain ⟨front, rfl, ht⟩ := exists_of_seam hs hseam heq
        rw [List.length_append, List.length_append]
        exact Nat.add_le_add_left (opened.least front after' ht) _

/-- What pieces and a rest show. -/
def shown (d : Document) (id : Int) (ps : List Piece) (rest : List Char) : String :=
  String.join (ps.map (·.show d id)) ++ String.ofList rest

/-- What follows a message is scanned as if it stood alone. -/
theorem Scan.append {ps' : List Piece} {rest' : List Char} (h : Scan s ps rest)
    (hrest : ¬opening <:+: rest) (hseam : ¬Meets rest t) (h' : Scan t ps' rest') :
    ∃ all last, Scan (s ++ t) all last ∧
      ∀ d id, shown d id all last = shown d id ps rest ++ shown d id ps' rest' := by
  induction h with
  | @rest cs none_whole =>
      rcases Scan.behind_text hrest hseam h' with ⟨hscan, rfl⟩ | ⟨before, name, ps, rfl, hscan⟩
      · exact ⟨[], _, hscan, fun d id => by simp [shown, String.join]⟩
      · exact ⟨_, _, hscan, fun d id => by simp [shown, Piece.show, String.append_assoc]⟩
  | @placeholder cs before behind inside after rest ps opened closed more ih =>
      obtain ⟨all, last, hscan, hshown⟩ := ih hrest hseam
      refine ⟨_, last, .placeholder (opened.append t) (closed.append t) hscan, fun d id => ?_⟩
      have hall := hshown d id
      simp only [shown, List.map_cons, String.join_cons, String.append_assoc] at hall ⊢
      rw [hall]

end Append

section Render

variable {d : Document} {id : Int} {template : String} {ps : List Piece} {rest : List Char}

theorem Scan.render_eq (h : Scan template.toList ps rest) (d : Document) (id : Int) :
    render template d id = shown d id ps rest := by
  rw [render, h.pieces_eq, List.map_append, String.join_append, shown]
  simp [Piece.show]

theorem show_eq_written {p : Piece}
    (h : ∀ name, p = .name name → placeholder? (Blank.trim (String.ofList name)) d id = none) :
    p.show d id = String.ofList p.written := by
  cases p with
  | text cs => rfl
  | name cs =>
      show (placeholder? _ d id).getD _ = _
      rw [h cs rfl]
      rfl

/-- Without known names a message is shown as it is written. -/
theorem Scan.render_of_unknown (h : Scan template.toList ps rest)
    (hunknown : ∀ name, .name name ∈ ps →
      placeholder? (Blank.trim (String.ofList name)) d id = none) :
    render template d id = template := by
  have hmap : ps.map (·.show d id) = ps.map fun p => String.ofList p.written :=
    List.map_congr_left fun p hp => show_eq_written fun name hname => hunknown name (hname ▸ hp)
  rw [h.render_eq, ← String.toList_inj, shown, hmap, ← h.written_eq]
  simp [String.toList_join, List.flatMap_map]

/-- Rendering goes on into what is put behind a message. -/
theorem Scan.render_append {s t : String} (h : Scan s.toList ps rest) (hrest : ¬opening <:+: rest)
    (hseam : ¬Meets rest t.toList) (d : Document) (id : Int) :
    render (s ++ t) d id = render s d id ++ render t d id := by
  obtain ⟨ps', rest', h'⟩ := exists_scan t.toList
  obtain ⟨all, last, hscan, hshown⟩ := h.append hrest hseam h'
  rw [← String.toList_append] at hscan
  rw [hscan.render_eq, hshown, h.render_eq, h'.render_eq]

/-- A placeholder as a message of its own. -/
theorem scan_placeholder {name : List Char} (h : ¬closing <:+: name ++ ['\x7d']) :
    Scan (opening ++ name ++ closing) [.text [], .name name] [] := by
  have hclose : First closing (name ++ closing) name [] := by
    refine ⟨by simp, fun before after heq => ?_⟩
    by_contra hlt
    have hlong : before ++ closing <+: name ++ closing := ⟨after, by rw [heq, List.append_assoc]⟩
    have hshort : name ++ ['\x7d'] <+: name ++ closing := ⟨['\x7d'], by rw [List.append_assoc]; rfl⟩
    have hlength : (before ++ closing).length ≤ (name ++ ['\x7d']).length := by
      simp [closing]
      omega
    have hfront := List.prefix_of_prefix_length_le hlong hshort hlength
    exact h ((List.suffix_append before closing).isInfix.trans hfront.isInfix)
  rw [List.append_assoc]
  exact .placeholder (first_front.mpr ⟨rfl, rfl⟩) hclose
    (.rest (none_whole_of_none (by simp [opening])))

/-- **Messages are read once, from left to right.**  Every message, whatever braces stand in it, is
scanned in exactly one way, and the scan does not look at the element: what is shown is what its
pieces show, one after the other.

* A message without known names is shown as it is written.
* When the rest holds no opening braces, and none come about at the seam, a message that is put
  behind is shown as if it stood alone.
* So the text that a placeholder stands for is put there as it is, be there braces in it or not. -/
theorem render_single_pass (s : String) : ∃ ps rest, Scan s.toList ps rest ∧
    (∀ ps' rest', Scan s.toList ps' rest' → ps' = ps ∧ rest' = rest) ∧
    ∀ (d : Document) (id : Int),
      render s d id = String.join (ps.map (·.show d id)) ++ String.ofList rest ∧
      ((∀ name, .name name ∈ ps → placeholder? (Blank.trim (String.ofList name)) d id = none) →
        render s d id = s) ∧
      (¬opening <:+: rest →
        (∀ t : String, ¬Meets rest t.toList →
          render (s ++ t) d id = render s d id ++ render t d id) ∧
        ∀ (name : List Char) (value t : String), rest.getLast? ≠ some '\x7b' →
          ¬closing <:+: name ++ ['\x7d'] →
          placeholder? (Blank.trim (String.ofList name)) d id = some value →
          render (s ++ (String.ofList (opening ++ name ++ closing) ++ t)) d id =
            render s d id ++ (value ++ render t d id)) := by
  obtain ⟨ps, rest, hscan⟩ := exists_scan s.toList
  refine ⟨ps, rest, hscan, fun ps' rest' h' => h'.unique hscan, fun d id => ?_⟩
  refine ⟨hscan.render_eq d id, hscan.render_of_unknown, fun hrest => ?_⟩
  refine ⟨fun t hseam => hscan.render_append hrest hseam d id, ?_⟩
  intro name value t hlast hname hvalue
  have hplace := scan_placeholder hname
  have hempty : ¬opening <:+: [] := by simp [opening]
  have hseam : ¬Meets rest (String.ofList (opening ++ name ++ closing) ++ t).toList :=
    fun h => hlast h.1
  rw [hscan.render_append hrest hseam]
  rw [← String.toList_ofList (l := opening ++ name ++ closing)] at hplace
  rw [hplace.render_append hempty (by simp [Meets]), hplace.render_eq]
  simp [shown, Piece.show, hvalue]

/-- An unknown name and a third closing brace stay, and a value that looks like a placeholder is not
read again. -/
theorem render_single_pass_lookalike :
    ∃ d : Document, placeholder? "id" d 0 = some "\x7b\x7bkind\x7d\x7d" ∧
      Scan "\x7b\x7bno\x7d\x7d\x7d ".toList [.text [], .name ['n', 'o']] ['\x7d', ' '] ∧
      render "\x7b\x7bno\x7d\x7d\x7d " d 0 = "\x7b\x7bno\x7d\x7d\x7d " ∧
      render ("\x7b\x7bno\x7d\x7d\x7d " ++ ("\x7b\x7b id \x7d\x7d" ++ "\x7b")) d 0 =
        "\x7b\x7bno\x7d\x7d\x7d " ++ ("\x7b\x7bkind\x7d\x7d" ++ "\x7b") := by
  let d : Document := ⟨"a.wxs", [], #[{
    kind := "File", attrs := [⟨"Id", "\x7b\x7bkind\x7d\x7d"⟩], children := [], parent := none,
    range := ⟨1, 1, 1, 1⟩, text := "", span := none }]⟩
  have hvalue : placeholder? "id" d 0 = some "\x7b\x7bkind\x7d\x7d" := rfl
  have hunknown : placeholder? "no" d 0 = none := by decide +kernel
  have hopen : First opening "\x7b\x7bno\x7d\x7d\x7d ".toList []
      ['n', 'o', '\x7d', '\x7d', '\x7d', ' '] := cut?_eq_some_iff.mp (by decide)
  have hscan : Scan "\x7b\x7bno\x7d\x7d\x7d ".toList [.text [], .name ['n', 'o']] ['\x7d', ' '] :=
    .placeholder hopen (cut?_eq_some_iff.mp (by decide))
      (.rest (none_whole_of_none (cut?_eq_none_iff.mp (by decide))))
  obtain ⟨ps, rest, -, hunique, hrender⟩ := render_single_pass "\x7b\x7bno\x7d\x7d\x7d "
  obtain ⟨rfl, rfl⟩ := hunique _ _ hscan
  obtain ⟨-, hwritten, hclosed⟩ := hrender d 0
  obtain ⟨-, hplace⟩ := hclosed (cut?_eq_none_iff.mp (by decide))
  have hs : render "\x7b\x7bno\x7d\x7d\x7d " d 0 = "\x7b\x7bno\x7d\x7d\x7d " := by
    refine hwritten fun name hname => ?_
    obtain rfl : name = ['n', 'o'] := by simpa using hname
    exact hunknown
  refine ⟨d, hvalue, hscan, hs, ?_⟩
  have hall := hplace " id ".toList "\x7b\x7bkind\x7d\x7d" "\x7b" (by decide)
    (cut?_eq_none_iff.mp (by decide)) hvalue
  have hlast : Scan "\x7b".toList [] ['\x7b'] :=
    .rest (none_whole_of_none (cut?_eq_none_iff.mp (by decide)))
  rw [hs, hlast.render_eq] at hall
  exact hall

end Render

end Message

end InstallerLint
