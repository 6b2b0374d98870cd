import InstallerLint.Suppression
import Mathlib.Data.List.Induction
import Mathlib.Data.List.Pairwise
import Mathlib.Tactic.SplitIfs

/-!
# What suppression comments mean

A line is turned off for a rule in one of two ways.

* **By a directive that targets it** (`Directive.Targets`), if the directive names the rule or none
  at all.
* **By an open block** (`Opened`): a `disable` without rules stands above the line, and behind it no
  `enable` stands above the line.

**Reading.**  The set that is built from the directives keeps merged rules per line, the blocks that
were closed and the block that is open.  After every directive it says what the directives so far
mean (`Tracks`), because directives come line by line.
-/

namespace InstallerLint
namespace Suppression

/-- A directive is about one line: its own or the next one. -/
def Directive.Targets (d : Directive) (line : Nat) : Prop :=
  (d.action = .disableLine ∧ d.line = line)
    ∨ (d.action = .disableNextLine ∧ d.line + 1 = line)
    ∨ (d.action = .disable ∧ d.rules ≠ [] ∧ d.line + 1 = line)

/-- A directive is for a rule: it names the rule in upper case, or no rule at all. -/
def Directive.IsFor (d : Directive) (ruleId : String) : Prop :=
  d.rules = [] ∨ Case.upper ruleId ∈ d.rules

/-- A directive that turns everything off from the next line on. -/
def Directive.Opens (d : Directive) : Prop := d.action = .disable ∧ d.rules = []

/-- Above a line everything was turned off, and not turned on again behind that. -/
def Opened (ds : List Directive) (line : Nat) : Prop :=
  ∃ before d after, ds = before ++ d :: after ∧ d.Opens ∧ d.line < line ∧
    ∀ e ∈ after, e.action = .enable → line ≤ e.line

instance (d : Directive) : Decidable d.Opens := inferInstanceAs (Decidable (_ ∧ _))

section Order

theorem line_of_mem_directivesIn {line fuel : Nat} {cs : List Char} {d : Directive}
    (h : d ∈ directivesIn line fuel cs) : d.line = line := by
  induction fuel generalizing cs with
  | zero => cases h
  | succ fuel ih =>
      cases cs with
      | nil => cases h
      | cons c cs =>
          unfold directivesIn at h
          split at h
          · rcases List.mem_cons.mp h with rfl | h
            · rfl
            · exact ih h
          · exact ih h

theorem line_of_mem_directivesFrom {line : Nat} {texts : List Bytes} {d : Directive}
    (h : d ∈ directivesFrom line texts) : line ≤ d.line := by
  induction texts generalizing line with
  | nil => cases h
  | cons text texts ih =>
      rcases List.mem_append.mp h with h | h
      · exact Nat.le_of_eq (line_of_mem_directivesIn h).symm
      · exact Nat.le_of_succ_le (ih h)

theorem pairwise_directivesFrom (line : Nat) (texts : List Bytes) :
    (directivesFrom line texts).Pairwise fun d e => d.line ≤ e.line := by
  induction texts generalizing line with
  | nil => exact List.Pairwise.nil
  | cons text texts ih =>
      refine List.pairwise_append.mpr ⟨?_, ih (line + 1), fun d hd e he => ?_⟩
      · refine List.pairwise_of_forall_mem_list fun d hd e he => ?_
        exact Nat.le_of_eq ((line_of_mem_directivesIn hd).trans (line_of_mem_directivesIn he).symm)
      · rw [line_of_mem_directivesIn hd]
        exact Nat.le_of_succ_le (line_of_mem_directivesFrom he)

/-- Directives come line by line. -/
theorem pairwise_directives (source : Bytes) :
    (directives source).Pairwise fun d e => d.line ≤ e.line :=
  pairwise_directivesFrom 1 source.splitLF

end Order

section Rules

variable {line n : Nat} {rules current : RuleSet} {ruleId : String}

theorem covers_iff (d : Directive) (ruleId : String) :
    RuleSet.covers d.rules ruleId = true ↔ d.IsFor ruleId := by
  simp [RuleSet.covers, Directive.IsFor]

/-- Rules that are merged cover what one of both covers. -/
theorem covers_merge (current rules : RuleSet) (ruleId : String) :
    RuleSet.covers (if current.isEmpty || rules.isEmpty then [] else current ++ rules) ruleId =
      (current.covers ruleId || rules.covers ruleId) := by
  unfold RuleSet.covers
  cases current with
  | nil => simp
  | cons r current =>
      cases rules with
      | nil => simp
      | cons r' rules => simp [Bool.or_assoc]

/-- Turning rules off on a line adds to what is off there, and to nothing else. -/
theorem any_addTo (line : Nat) (rules : RuleSet) (n : Nat) (ruleId : String) :
    ∀ l : List (Nat × RuleSet),
      (Set.addTo line rules l).any (fun x => x.1 = n && x.2.covers ruleId) =
        (l.any (fun x => x.1 = n && x.2.covers ruleId) || (line = n && rules.covers ruleId))
  | [] => by simp [Set.addTo]
  | (m, current) :: l => by
      unfold Set.addTo
      by_cases hm : m = line
      · subst hm
        rw [if_pos rfl, List.any_cons, List.any_cons, covers_merge]
        by_cases hn : m = n
        · simp [hn, Bool.or_right_comm]
        · simp [hn]
      · rw [if_neg hm, List.any_cons, List.any_cons, any_addTo line rules n ruleId l, Bool.or_assoc]

end Rules

section OpenBlocks

variable {done : List Directive} {d : Directive} {line : Nat}

theorem not_opened_nil (line : Nat) : ¬ Opened [] line := by
  rintro ⟨before, d, after, h, -⟩
  simp at h

/-- What one more directive means for blocks. -/
theorem opened_concat_iff : Opened (done ++ [d]) line ↔
    (Opened done line ∧ (d.action = .enable → line ≤ d.line)) ∨ (d.Opens ∧ d.line < line) := by
  constructor
  · rintro ⟨before, o, after, hsplit, hopens, hline, hafter⟩
    rcases List.eq_nil_or_concat after with rfl | ⟨init, last, rfl⟩
    · obtain ⟨-, hd⟩ := List.append_inj' hsplit rfl
      obtain rfl : d = o := by simpa using hd
      exact Or.inr ⟨hopens, hline⟩
    · have hsplit' : done ++ [d] = (before ++ o :: init) ++ [last] := by simpa using hsplit
      obtain ⟨hdone, hd⟩ := List.append_inj' hsplit' rfl
      obtain rfl : d = last := by simpa using hd
      refine Or.inl ⟨⟨before, o, init, hdone, hopens, hline, fun e he => ?_⟩, ?_⟩
      · exact hafter e (by simp [he])
      · exact hafter d (by simp)
  · rintro (⟨⟨before, o, after, rfl, hopens, hline, hafter⟩, hd⟩ | ⟨hopens, hline⟩)
    · refine ⟨before, o, after ++ [d], by simp, hopens, hline, fun e he => ?_⟩
      rcases List.mem_append.mp he with he | he
      · exact hafter e he
      · rw [List.mem_singleton.mp he]
        exact hd
    · exact ⟨done, d, [], rfl, hopens, hline, fun e he => by cases he⟩

/-- Only the directives that open and close blocks count for blocks. -/
theorem opened_filter_iff (ds : List Directive) :
    Opened (ds.filter fun d => d.Opens ∨ d.action = .enable) line ↔ Opened ds line := by
  induction ds using List.reverseRecOn with
  | nil => exact Iff.rfl
  | append_singleton ds d ih =>
      rw [List.filter_append, opened_concat_iff, ← ih]
      by_cases hd : d.Opens ∨ d.action = .enable
      · rw [List.filter_cons_of_pos (by simpa using hd), List.filter_nil, opened_concat_iff]
      · rw [List.filter_cons_of_neg (by simpa using hd), List.filter_nil, List.append_nil]
        obtain ⟨hopens, henable⟩ := not_or.mp hd
        simp [hopens, henable]

end OpenBlocks

section Run

variable {done : List Directive} {d : Directive} {s : Set} {opened : Option Nat}

/-- What was built so far says what the directives so far mean. -/
structure Tracks (done : List Directive) (s : Set) (opened : Option Nat) : Prop where
  lines : ∀ ruleId line, s.lines.any (fun x => x.1 = line && x.2.covers ruleId) = true ↔
    ∃ d ∈ done, d.Targets line ∧ d.IsFor ruleId
  blocks : ∀ line, ((∃ b ∈ s.blocks, b.1 ≤ line ∧ line ≤ b.2) ∨ ∃ first ∈ opened, first ≤ line) ↔
    Opened done line
  closed : ∀ b ∈ s.blocks, ∃ e ∈ done, b.2 = e.line
  start : ∀ first ∈ opened, ∃ e ∈ done, first = e.line + 1

theorem tracks_nil : Tracks [] ⟨[], []⟩ none where
  lines := by simp
  blocks := fun line => by simp [not_opened_nil]
  closed := by simp
  start := by simp

/-- A directive that neither opens nor closes a block. -/
theorem Tracks.keep (h : Tracks done s opened) {s' : Set} (hblocks : s'.blocks = s.blocks)
    (hopens : ¬ d.Opens) (henable : d.action ≠ .enable)
    (hlines : ∀ ruleId line, s'.lines.any (fun x => x.1 = line && x.2.covers ruleId) = true ↔
      s.lines.any (fun x => x.1 = line && x.2.covers ruleId) = true ∨
        d.Targets line ∧ d.IsFor ruleId) :
    Tracks (done ++ [d]) s' opened where
  lines := by
    intro ruleId line
    rw [hlines, h.lines]
    simp [or_and_right, exists_or]
  blocks := by
    intro line
    rw [hblocks, h.blocks, opened_concat_iff]
    simp [hopens, henable]
  closed := by
    intro b hb
    obtain ⟨e, he, heq⟩ := h.closed b (hblocks ▸ hb)
    exact ⟨e, List.mem_append_left _ he, heq⟩
  start := by
    intro first hfirst
    obtain ⟨e, he, heq⟩ := h.start first hfirst
    exact ⟨e, List.mem_append_left _ he, heq⟩

/-- A directive that targets a line. -/
theorem Tracks.addLine (h : Tracks done s opened) {n : Nat} (hopens : ¬ d.Opens)
    (henable : d.action ≠ .enable) (htargets : ∀ line, d.Targets line ↔ n = line) :
    Tracks (done ++ [d]) (s.addLine n d.rules) opened := by
  refine h.keep rfl hopens henable fun ruleId line => ?_
  rw [htargets, ← covers_iff]
  show (Set.addTo n d.rules s.lines).any _ = true ↔ _
  rw [any_addTo]
  simp

/-- A directive that is about no line by itself. -/
theorem Tracks.lines_concat (h : Tracks done s opened) (hd : ∀ line, ¬ d.Targets line)
    (ruleId : String) (line : Nat) :
    s.lines.any (fun x => x.1 = line && x.2.covers ruleId) = true ↔
      ∃ e ∈ done ++ [d], e.Targets line ∧ e.IsFor ruleId := by
  rw [h.lines]
  simp [or_and_right, exists_or, hd]

/-- A directive that opens a block. -/
theorem Tracks.open (h : Tracks done s opened) (hsorted : ∀ e ∈ done, e.line ≤ d.line)
    (hopens : d.Opens) : Tracks (done ++ [d]) s (some (opened.getD (d.line + 1))) where
  lines := h.lines_concat fun line => by simp [Directive.Targets, hopens.1, hopens.2]
  blocks := by
    intro line
    have hnot : d.action ≠ .enable := by simp [hopens.1]
    rw [opened_concat_iff, ← h.blocks]
    cases opened with
    | none => simp [hopens, hnot, Nat.succ_le_iff]
    | some first =>
        obtain ⟨e, he, rfl⟩ := h.start first rfl
        have hle := hsorted e he
        have habove : d.line < line → e.line + 1 ≤ line := by omega
        simp only [Option.getD_some, Option.mem_some_iff, exists_eq_left', hopens, hnot,
          false_implies, and_true, true_and]
        exact (or_iff_left_of_imp fun hbelow => Or.inr (habove hbelow)).symm
  closed := by
    intro b hb
    obtain ⟨e, he, heq⟩ := h.closed b hb
    exact ⟨e, List.mem_append_left _ he, heq⟩
  start := by
    rintro first ⟨⟩
    cases opened with
    | none => exact ⟨d, by simp, rfl⟩
    | some f =>
        obtain ⟨e, he, heq⟩ := h.start f rfl
        exact ⟨e, List.mem_append_left _ he, heq⟩

/-- A directive that closes the open block, if there is one. -/
theorem Tracks.close (h : Tracks done s opened) (hsorted : ∀ e ∈ done, e.line ≤ d.line)
    (henable : d.action = .enable) :
    Tracks (done ++ [d])
      { s with blocks := s.blocks ++ (opened.map fun first => (first, d.line)).toList } none where
  lines := h.lines_concat fun line => by simp [Directive.Targets, henable]
  blocks := by
    intro line
    have hnot : ¬ d.Opens := fun hopens => by simp [hopens.1] at henable
    -- a closed block ends above, so it is not cut by this directive
    have hended : (∃ b ∈ s.blocks, b.1 ≤ line ∧ line ≤ b.2) → line ≤ d.line := by
      rintro ⟨b, hb, -, hle⟩
      obtain ⟨e, he, heq⟩ := h.closed b hb
      exact Nat.le_trans (heq ▸ hle) (hsorted e he)
    rw [opened_concat_iff, ← h.blocks]
    cases opened with
    | none => simpa [hnot, henable] using hended
    | some first =>
        simp only [Option.map_some, Option.toList_some, List.mem_append, List.mem_singleton,
          or_and_right, exists_or, exists_eq_left, Option.mem_some_iff, exists_eq_left', henable,
          hnot, forall_const, false_and, or_false, Option.not_mem_none, exists_false]
        rw [and_iff_left_of_imp hended]
  closed := by
    intro b hb
    rcases List.mem_append.mp hb with hb | hb
    · obtain ⟨e, he, heq⟩ := h.closed b hb
      exact ⟨e, List.mem_append_left _ he, heq⟩
    · obtain ⟨first, -, rfl⟩ := Option.map_eq_some_iff.mp (Option.mem_toList.mp hb)
      exact ⟨d, by simp, rfl⟩
  start := by simp

/-- Every directive is taken in as it is meant. -/
theorem Tracks.step (h : Tracks done s opened) (hsorted : ∀ e ∈ done, e.line ≤ d.line) :
    Tracks (done ++ [d]) (Set.step (s, opened) d).1 (Set.step (s, opened) d).2 := by
  unfold Set.step
  cases haction : d.action with
  | enable =>
      have hclose := h.close hsorted haction
      cases opened with
      | none => simpa [haction] using hclose
      | some first => simpa [haction] using hclose
  | disableLine =>
      have hopens : ¬ d.Opens := fun hopens => by simp [hopens.1] at haction
      simp only [haction]
      refine h.addLine hopens (by simp [haction]) fun line => ?_
      simp [Directive.Targets, haction]
  | disableNextLine =>
      have hopens : ¬ d.Opens := fun hopens => by simp [hopens.1] at haction
      simp only [haction]
      refine h.addLine hopens (by simp [haction]) fun line => ?_
      simp [Directive.Targets, haction]
  | disable =>
      simp only [haction]
      split_ifs with hrules
      · exact h.open hsorted ⟨haction, List.isEmpty_iff.mp hrules⟩
      · have hne : d.rules ≠ [] := fun heq => hrules (List.isEmpty_iff.mpr heq)
        refine h.addLine (fun hopens => hne hopens.2) (by simp [haction]) fun line => ?_
        simp [Directive.Targets, haction, hne]

/-- So are all of them, one after the other. -/
theorem tracks_foldl {ds : List Directive} (h : ds.Pairwise fun d e => d.line ≤ e.line) :
    Tracks ds (ds.foldl Set.step (⟨[], []⟩, none)).1 (ds.foldl Set.step (⟨[], []⟩, none)).2 := by
  induction ds using List.reverseRecOn with
  | nil => exact tracks_nil
  | append_singleton ds d ih =>
      obtain ⟨hfront, -, hback⟩ := List.pairwise_append.mp h
      rw [List.foldl_append]
      exact (ih hfront).step fun e he => hback e he d List.mem_cons_self

end Run

section Meaning

variable {ds : List Directive} {lineCount line : Nat}

/-- The block that is still open reaches behind the last line. -/
theorem blocks_ofDirectives (hline : line ≤ lineCount + 1) :
    (∃ b ∈ (Set.ofDirectives ds lineCount).blocks, b.1 ≤ line ∧ line ≤ b.2) ↔
      (∃ b ∈ (ds.foldl Set.step (⟨[], []⟩, none)).1.blocks, b.1 ≤ line ∧ line ≤ b.2) ∨
        ∃ first ∈ (ds.foldl Set.step (⟨[], []⟩, none)).2, first ≤ line := by
  unfold Set.ofDirectives
  generalize ds.foldl Set.step (⟨[], []⟩, none) = built
  obtain ⟨s, opened⟩ := built
  cases opened with
  | none => simp
  | some first => simp [or_and_right, exists_or, hline]

theorem lines_ofDirectives (ds : List Directive) (lineCount : Nat) :
    (Set.ofDirectives ds lineCount).lines = (ds.foldl Set.step (⟨[], []⟩, none)).1.lines := by
  unfold Set.ofDirectives
  generalize ds.foldl Set.step (⟨[], []⟩, none) = built
  obtain ⟨s, opened⟩ := built
  cases opened <;> rfl

theorem isSuppressed_iff (s : Set) (ruleId : String) (line : Nat) :
    s.isSuppressed ruleId line = true ↔
      s.lines.any (fun x => x.1 = line && x.2.covers ruleId) = true ∨
        ∃ b ∈ s.blocks, b.1 ≤ line ∧ line ≤ b.2 := by
  simp [Set.isSuppressed, Int.ofNat_inj]

/-- What directives that come line by line turn off. -/
theorem isSuppressed_ofDirectives (h : ds.Pairwise fun d e => d.line ≤ e.line) (ruleId : String)
    (hline : line ≤ lineCount + 1) :
    (Set.ofDirectives ds lineCount).isSuppressed ruleId line = true ↔
      (∃ d ∈ ds, d.Targets line ∧ d.IsFor ruleId) ∨ Opened ds line := by
  have htracks := tracks_foldl h
  rw [isSuppressed_iff, lines_ofDirectives, blocks_ofDirectives hline, htracks.lines,
    htracks.blocks]

/-- **What is turned off.**  On the lines of a source and the one behind them a rule is off exactly
when a directive that targets the line is for it, or when a block is open there.  So the directives
that target a line count as a set, and the others by their order. -/
theorem suppressed_exactly (source : Bytes) (ruleId : String) (line : Nat)
    (hlast : line ≤ source.splitLF.length + 1) :
    ((Set.ofSource source).isSuppressed ruleId line = true ↔
      (∃ d ∈ directives source, d.Targets line ∧ d.IsFor ruleId) ∨
        Opened (directives source) line) ∧
    ∀ other : Bytes, line ≤ other.splitLF.length + 1 →
      (∀ d : Directive, d.Targets line → (d ∈ directives source ↔ d ∈ directives other)) →
      (directives source).filter (fun d => d.Opens ∨ d.action = .enable) =
        (directives other).filter (fun d => d.Opens ∨ d.action = .enable) →
      (Set.ofSource source).isSuppressed ruleId line =
        (Set.ofSource other).isSuppressed ruleId line := by
  have hmeans := fun (source : Bytes) (hlast : line ≤ source.splitLF.length + 1) =>
    isSuppressed_ofDirectives (pairwise_directives source) ruleId hlast
  refine ⟨hmeans source hlast, fun other hother hsame hblocks => ?_⟩
  have htargets : (∃ d ∈ directives source, d.Targets line ∧ d.IsFor ruleId) ↔
      ∃ d ∈ directives other, d.Targets line ∧ d.IsFor ruleId := by
    refine exists_congr fun d => and_congr_left fun hd => hsame d hd.1
  have hopened : Opened (directives source) line ↔ Opened (directives other) line := by
    rw [← opened_filter_iff (directives source), hblocks, opened_filter_iff]
  rw [Bool.eq_iff_iff]
  exact (hmeans source hlast).trans ((or_congr htargets hopened).trans (hmeans other hother).symm)

/-- A directive that is repeated changes nothing, and a block reaches to the line of its end. -/
theorem suppressed_exactly_repeated :
    ∃ source other : Bytes,
      directives source = [⟨1, .disable, []⟩, ⟨2, .disableLine, ["A"]⟩, ⟨2, .enable, []⟩] ∧
      directives other = [⟨1, .disable, []⟩, ⟨2, .disableLine, ["A"]⟩, ⟨2, .disableLine, ["A"]⟩,
        ⟨2, .enable, []⟩] ∧
      (Set.ofSource source).isSuppressed "B" 2 = true ∧
      (Set.ofSource source).isSuppressed "B" 2 = (Set.ofSource other).isSuppressed "B" 2 := by
  let source := Bytes.ofString ("<!--wix-analyzer-disable-->\n" ++
    "<!--wix-analyzer-disable-line A--><!--wix-analyzer-enable-->")
  let other := Bytes.ofString ("<!--wix-analyzer-disable-->\n<!--wix-analyzer-disable-line A-->" ++
    "<!--wix-analyzer-disable-line A--><!--wix-analyzer-enable-->")
  have hsource : directives source =
      [⟨1, .disable, []⟩, ⟨2, .disableLine, ["A"]⟩, ⟨2, .enable, []⟩] := by decide +kernel
  have hother : directives other = [⟨1, .disable, []⟩, ⟨2, .disableLine, ["A"]⟩,
      ⟨2, .disableLine, ["A"]⟩, ⟨2, .enable, []⟩] := by decide +kernel
  have hlines : 2 ≤ source.splitLF.length + 1 := by decide +kernel
  have hlines' : 2 ≤ other.splitLF.length + 1 := by decide +kernel
  have hopened : Opened (directives source) 2 := by
    rw [hsource]
    exact ⟨[], _, _, rfl, ⟨rfl, rfl⟩, by decide, by decide⟩
  clear_value source other
  obtain ⟨hmeans, hsame⟩ := suppressed_exactly source "B" 2 hlines
  refine ⟨source, other, hsource, hother, hmeans.mpr (Or.inr hopened), ?_⟩
  refine hsame other hlines' (fun d _ => ?_) (by rw [hsource, hother]; decide)
  simp [hsource, hother]

end Meaning

end Suppression
end InstallerLint
