import InstallerLint.Json.Basic
import InstallerLint.Proofs.Json.Number
import InstallerLint.Yaml.Decode
import Mathlib.Data.List.Nodup
import Mathlib.Data.List.Perm.Basic

/-!
# What decoders give

Two things are said of a decoder.  It `Gives` a value if it always ends with it and notes no issue;
it `Yields` a property if every value that it ends with has it, with issues or without.  Both go
through binds, so that a decoder is never run by hand.

**Written values.**  A value that is written as YAML is read as a tree again: texts, integers and
lists as they are, a mapping with its members in any order (`Rereads`).  Decoders of texts, integers,
lists and records give what was written.
-/

namespace InstallerLint
namespace Yaml

section Integers

theorem Decode.isInt64_iff {n : Int} : Decode.isInt64 n = true ↔
    -(Numbers.halfWords : Int) ≤ n ∧ n < (Numbers.halfWords : Int) := by
  unfold Decode.isInt64
  rw [Bool.and_eq_true, decide_eq_true_eq, decide_eq_true_eq]

namespace Scalar

theorem hexValue?_of_isDigit {c : Char} (h : c.isDigit = true) :
    hexValue? c = some (c.toNat - '0'.toNat) := by
  unfold hexValue?
  rw [if_pos h]

/-- The value of a digit is below ten. -/
theorem digit_lt {c : Char} (h : c.isDigit = true) : c.toNat - '0'.toNat < 10 := by
  have hle : c.toNat ≤ 57 := by
    simp only [Char.isDigit, Bool.and_eq_true, decide_eq_true_eq] at h
    exact UInt32.le_iff_toNat_le.mp h.2
  have hzero : '0'.toNat = 48 := rfl
  omega

/-- A fold that may fail does not, if each digit takes it a step further. -/
theorem foldl_of_isDigit {step : Option Nat → Char → Option Nat} {next : Nat → Char → Nat}
    (hstep : ∀ n c, c.isDigit = true → step (some n) c = some (next n c)) {cs : List Char}
    (hcs : ∀ c ∈ cs, c.isDigit = true) (n : Nat) :
    cs.foldl step (some n) = some (cs.foldl next n) := by
  induction cs generalizing n with
  | nil => rfl
  | cons c cs ih =>
      rw [List.foldl_cons, hstep n c (hcs c List.mem_cons_self)]
      exact ih (fun c' hc' => hcs c' (List.mem_cons_of_mem _ hc')) _

theorem digitsIn?_of_digits? {cs : List Char} {n : Nat} (h : Json.digits? cs = some n) :
    digitsIn? 10 cs = some n := by
  unfold Json.digits? at h
  split at h
  · next hcs =>
      rw [Bool.and_eq_true, decide_eq_true_eq, List.all_eq_true] at hcs
      unfold digitsIn?
      rw [if_neg (by simpa using hcs.1), ← h]
      refine foldl_of_isDigit (fun n c hc => ?_) hcs.2 0
      simp only [hexValue?_of_isDigit hc, if_pos (digit_lt hc)]
  · cases h

/-- Decimal digits are read back as the number. -/
theorem natural?_toDigits (n : Nat) : natural? (Nat.toDigits 10 n) = some n := by
  have hvalue := digitsIn?_of_digits? (Json.digits?_toDigits n)
  rcases Nat.eq_zero_or_pos n with rfl | hn
  · rfl
  · obtain ⟨c, cs, hcs, hc⟩ := Json.head_toDigits hn
    rw [hcs] at hvalue ⊢
    unfold natural?
    split
    · next heq => exact absurd (List.cons.inj heq).1 hc
    · exact hvalue

/-- A written number of 64 bits is read back. -/
theorem integer?_toString {n : Int} (h : Decode.isInt64 n = true) :
    integer? (toString n).toList = some n := by
  obtain ⟨hlow, hhigh⟩ := Decode.isInt64_iff.mp h
  cases n with
  | ofNat n =>
      have hlist : (toString (Int.ofNat n)).toList = Nat.toDigits 10 n := Json.toList_toString n
      rw [hlist]
      unfold integer?
      split
      · next rest hcs =>
          have hminus : ('-' : Char) ∈ Nat.toDigits 10 n := by rw [hcs]; exact List.mem_cons_self
          exact absurd (Json.isDigit_of_mem hminus) (by decide)
      · next rest hcs =>
          have hplus : ('+' : Char) ∈ Nat.toDigits 10 n := by rw [hcs]; exact List.mem_cons_self
          exact absurd (Json.isDigit_of_mem hplus) (by decide)
      · have hlt : n < Numbers.words := by
          simp only [Numbers.words, Numbers.halfWords, Int.ofNat_eq_natCast] at hhigh ⊢
          omega
        rw [natural?_toDigits, Option.bind_some, if_pos hlt]
        rfl
  | negSucc n =>
      have hle : n + 1 ≤ Numbers.halfWords := by
        omega
      rw [Json.toList_toString_negSucc]
      simp only [integer?, natural?_toDigits, Option.bind_some, if_pos hle]
      rfl

/-- A written number holds digits, and a sign at most. -/
theorem mem_toString {n : Int} {c : Char} (h : c ∈ (toString n).toList) :
    c = '-' ∨ c.isDigit = true := by
  cases n with
  | ofNat n =>
      rw [show (toString (Int.ofNat n)).toList = Nat.toDigits 10 n from Json.toList_toString n] at h
      exact Or.inr (Json.isDigit_of_mem h)
  | negSucc n =>
      rw [Json.toList_toString_negSucc] at h
      exact (List.mem_cons.mp h).imp_right Json.isDigit_of_mem

/-- No word with a meaning of its own is written like an integer. -/
theorem lookup_words_toString (n : Int) : words.lookup (toString n) = none := by
  have hwords : words.all (fun w => w.1 == "" ||
      w.1.toList.any fun c => c != '-' && !c.isDigit) = true := by
    decide +kernel
  refine List.lookup_eq_none_iff.mpr fun w hw => ?_
  rw [bne_iff_ne]
  intro heq
  have hw := List.all_eq_true.mp hwords w hw
  simp only [Bool.or_eq_true, beq_iff_eq, List.any_eq_true, Bool.and_eq_true, bne_iff_ne,
    Bool.not_eq_true'] at hw
  rcases hw with hempty | ⟨c, hc, hminus, hdigit⟩
  · obtain ⟨c, cs, hcs, -⟩ := Json.head_toString n
    rw [heq, hempty] at hcs
    cases hcs
  · rw [← heq] at hc
    rcases mem_toString hc with h | h
    · exact hminus h
    · rw [h] at hdigit
      cases hdigit

/-- A written integer means itself. -/
theorem resolveAs_toString {n : Int} (h : Decode.isInt64 n = true) :
    resolveAs false (toString n) = .int n := by
  have hplain : (toString n).toList.filter (· ≠ '_') = (toString n).toList := by
    refine List.filter_eq_self.mpr fun c hc => ?_
    rcases mem_toString hc with rfl | hdigit
    · rfl
    · rw [decide_eq_true_eq]
      rintro rfl
      cases hdigit
  have hvalue := integer?_toString h
  obtain ⟨c, cs, hcs, hc⟩ := Json.head_toString n
  have hstart : (c.isDigit || c = '+' || c = '-') = true := by
    rcases hc with rfl | hdigit
    · rfl
    · rw [hdigit]
      rfl
  unfold resolveAs
  rw [lookup_words_toString]
  simp only
  rw [hplain, hvalue, hcs]
  split
  · next heq =>
      rw [(List.cons.inj heq).1] at hc
      rcases hc with hdot | hdigit
      · cases hdot
      · cases hdigit
  · next heq =>
      rw [(List.cons.inj heq).1] at hstart
      rw [if_pos hstart]
      rfl
  · next heq => cases heq

end Scalar

end Integers

namespace Decode

variable {α β ρ ι : Type} {d : Decode α} {f : α → Decode β} {a : α} {b : β}
  {P : α → Prop} {Q : β → Prop}

section Gives

/-- The decoder always ends with a value, and notes nothing. -/
def Gives (d : Decode α) (a : α) : Prop := ∀ issues, d.run issues = .ok (a, issues)

theorem gives_pure (a : α) : Gives (pure a) a := fun _ => rfl

/-- What two decoders give one after the other. -/
theorem Gives.bind (h : Gives d a) (hf : Gives (f a) b) : Gives (d >>= f) b := by
  intro issues
  rw [StateT.run_bind, h issues]
  exact hf issues

theorem Gives.map (h : Gives d a) (g : α → β) : Gives (g <$> d) (g a) := by
  intro issues
  rw [StateT.run_map, h issues]
  rfl

theorem Gives.nested (h : Gives d a) : Gives (nested d) (some a) := by
  intro issues
  unfold Decode.nested
  rw [h []]
  rfl

/-- A decoder that gives a value without issues ends with it. -/
theorem Gives.finish (h : Gives d a) : finish d = .ok a := by
  unfold Decode.finish
  rw [h []]

end Gives

section Yields

/-- Every value that the decoder ends with has a property. -/
def Yields (d : Decode α) (P : α → Prop) : Prop :=
  ∀ issues a issues', d.run issues = .ok (a, issues') → P a

theorem yields_pure (h : P a) : Yields (pure a) P := by
  intro issues a' issues' heq
  cases heq
  exact h

theorem yields_throw (e : Error) : Yields (throw e) P := by
  intro issues a issues' heq
  cases heq

/-- What holds of every value of two decoders, one after the other. -/
theorem Yields.bind (h : Yields d P) (hf : ∀ a, P a → Yields (f a) Q) : Yields (d >>= f) Q := by
  intro issues b issues' heq
  rw [StateT.run_bind] at heq
  cases hd : d.run issues with
  | error e =>
      rw [hd] at heq
      cases heq
  | ok r =>
      rw [hd] at heq
      exact hf r.1 (h issues r.1 r.2 hd) r.2 b issues' heq

theorem yields_bind (hf : ∀ a, Yields (f a) Q) : Yields (d >>= f) Q :=
  Yields.bind (P := fun _ => True) (fun _ _ _ _ => trivial) fun a _ => hf a

theorem Yields.map {g : α → β} (h : Yields d P) (hg : ∀ a, P a → Q (g a)) :
    Yields (g <$> d) Q := by
  intro issues b issues' heq
  rw [StateT.run_map] at heq
  cases hd : d.run issues with
  | error e =>
      rw [hd] at heq
      cases heq
  | ok r =>
      rw [hd] at heq
      cases heq
      exact hg r.1 (h issues r.1 r.2 hd)

theorem yields_map {g : α → β} (hg : ∀ a, Q (g a)) : Yields (g <$> d) Q :=
  Yields.map (P := fun _ => True) (fun _ _ _ _ => trivial) fun a _ => hg a

theorem Yields.and {P' : α → Prop} (h : Yields d P) (h' : Yields d P') :
    Yields d fun a => P a ∧ P' a := fun issues a issues' hd =>
  ⟨h issues a issues' hd, h' issues a issues' hd⟩

theorem Yields.nested (h : Yields d P) : Yields (nested d) fun o => ∀ a ∈ o, P a := by
  refine yields_bind fun before => ?_
  split
  · exact yields_throw _
  · next a hd =>
      refine yields_pure fun a' ha => ?_
      cases ha
      exact h [] a [] hd
  · exact yields_bind fun _ => yields_pure nofun

/-- What holds of every value of a decoder holds of the one it ends with. -/
theorem Yields.finish (h : Yields d P) (hd : finish d = .ok a) : P a := by
  unfold Decode.finish at hd
  split at hd
  · cases hd
  · next a' hrun =>
      cases hd
      exact h [] a [] hrun
  · cases hd

end Yields

section Invariant

/-- A scalar decoder yields what its reader takes. -/
theorem yields_scalar {target : String} {take : String → Scalar → Option α} {n : DataTree}
    (htake : ∀ s v a, take s v = some a → P a) :
    Yields (scalar target take n) fun o => ∀ a ∈ o, P a := by
  have hnone : Yields (pure none : Decode (Option α)) fun o => ∀ a ∈ o, P a := yields_pure nofun
  unfold scalar
  refine yields_bind fun n => ?_
  split
  · split
    · exact yields_bind fun _ => hnone
    · refine yields_bind fun value => ?_
      split
      · exact hnone
      · split
        · next a hsome =>
            refine yields_pure fun a' ha => ?_
            cases ha
            exact htake _ _ a hsome
        · exact yields_bind fun _ => hnone
  · exact yields_bind fun _ => hnone
  · refine yields_bind fun ok => ?_
    split
    · exact yields_bind fun _ => hnone
    · exact hnone
  · exact yields_throw _

/-- A decoded integer has 64 bits. -/
theorem yields_int (n : DataTree) : Yields (int n) fun o => ∀ i ∈ o, isInt64 i = true := by
  refine yields_scalar fun s v i htake => ?_
  split at htake
  · split_ifs at htake with h
    cases htake
    exact h
  · split_ifs at htake with h
    cases htake
    exact h
  · cases htake
    decide
  · cases htake

variable {target : String} {strict : Bool} {field : Field ρ} {R : ρ → Prop}
  (hfield : ∀ r name n d, R r → field r name n = some d → Yields d R)

include hfield

/-- A record filled from entries keeps what every field setter keeps. -/
theorem yields_fill {merged : Bool} (entries : List (DataTree × DataTree)) (taken done : List String)
    {r : ρ} (hr : R r) :
    Yields (fill target strict merged field entries taken done r) fun x => R x.2 := by
  -- Only the step of a field changes the record; all other entries pass it on.
  induction entries generalizing taken done r with
  | nil => exact yields_pure hr
  | cons entry rest ih =>
      obtain ⟨key, value⟩ := entry
      unfold fill
      split
      · exact ih taken done hr
      · refine yields_bind fun o => ?_
        split
        · exact ih taken done hr
        · next name =>
            split
            · exact ih taken done hr
            · dsimp only
              split
              · split
                · exact yields_bind fun _ => ih _ done hr
                · exact ih _ done hr
              · next step hstep =>
                  split
                  · exact yields_bind fun _ => ih _ done hr
                  · exact (hfield r name value step hr hstep).bind fun r' hr' => ih _ _ hr'

/-- Merged mappings keep it as well. -/
theorem yields_fillMerged {depth : Nat} {sources : List (List (DataTree × DataTree))}
    {taken : List String} {r : ρ} (hr : R r) :
    Yields (fillMerged target strict field depth sources taken r) fun x => R x.2 := by
  induction depth generalizing sources taken r with
  | zero => exact yields_pure hr
  | succ depth ih =>
      cases sources with
      | nil => exact yields_pure hr
      | cons entries rest =>
          unfold fillMerged
          refine yields_bind fun ok => ?_
          split
          · refine (yields_fill hfield entries taken [] hr).bind fun x hx => ?_
            dsimp only
            split
            · exact yields_bind fun inner => ih hx
            · exact yields_bind fun inner => ih hx
          · exact ih hr

/-- What every field keeps of an empty record, a decoded record has. -/
theorem yields_record {empty : ρ} {n : DataTree} (hempty : R empty) :
    Yields (record target strict empty field n) fun o => ∀ r ∈ o, R r := by
  have hsome : ∀ r, R r → Yields (pure (some r) : Decode (Option ρ)) fun o => ∀ r ∈ o, R r := by
    intro r hr
    refine yields_pure fun r' hr' => ?_
    cases hr'
    exact hr
  unfold record
  refine yields_bind fun n => ?_
  split
  · next entries =>
      refine yields_bind fun ok => ?_
      split
      · refine (yields_fill hfield entries [] [] hempty).bind fun x hx => ?_
        dsimp only
        split
        · exact hsome x.2 hx
        · refine yields_bind fun names => yields_bind fun sources => ?_
          exact (yields_fillMerged hfield hx).bind fun y hy => hsome y.2 hy
      · exact yields_pure nofun
  · exact yields_scalar nofun

end Invariant

section Levels

/-- Decoders that agree behind what another one gives, agree behind it. -/
theorem bind_congr_of_yields {f g : α → Decode β} (h : Yields d P) (hfg : ∀ a, P a → f a = g a) :
    d >>= f = d >>= g := by
  funext issues
  show d.run issues >>= _ = d.run issues >>= _
  cases hd : d.run issues with
  | error e => rfl
  | ok r => exact congrFun (hfg r.1 (h issues r.1 r.2 hd)) r.2

/-- A node is not lower than what its alias points at. -/
theorem depth_le_of_deref (n : DataTree) : Yields (deref n) fun t => t.depth ≤ n.depth := by
  unfold deref
  split
  · next line name t =>
      cases t with
      | none => exact yields_throw _
      | some t => exact yields_pure (Nat.le_succ _)
  · exact yields_pure (Nat.le_refl _)

theorem depth_le_of_mem {n : DataTree} {ns : List DataTree} (h : n ∈ ns) :
    n.depth ≤ DataTree.depthOfItems ns := by
  induction ns with
  | nil => cases h
  | cons n' ns ih =>
      rcases List.mem_cons.mp h with rfl | h
      · exact Nat.le_max_left _ _
      · exact Nat.le_trans (ih h) (Nat.le_max_right _ _)

theorem depth_le_of_mem_entries {e : DataTree × DataTree} {es : List (DataTree × DataTree)}
    (h : e ∈ es) : e.2.depth ≤ DataTree.depthOfEntries es := by
  induction es with
  | nil => cases h
  | cons e' es ih =>
      rcases List.mem_cons.mp h with rfl | h
      · exact Nat.le_max_left _ _
      · exact Nat.le_trans (ih h) (Nat.le_max_right _ _)

theorem yields_mapM {γ : Type} {f : γ → Decode α} {l : List γ} (h : ∀ x ∈ l, Yields (f x) P) :
    Yields (l.mapM f) fun ys => ∀ y ∈ ys, P y := by
  induction l with
  | nil => exact yields_pure fun y hy => absurd hy List.not_mem_nil
  | cons x l ih =>
      rw [List.mapM_cons]
      refine (h x List.mem_cons_self).bind fun y hy => ?_
      refine (ih fun z hz => h z (List.mem_cons_of_mem _ hz)).bind fun ys hys => ?_
      exact yields_pure (List.forall_mem_cons.mpr ⟨hy, hys⟩)

/-- The value of a merge key is not higher than the mapping. -/
theorem depth_le_of_mergeValue? {es : List (DataTree × DataTree)} {v : DataTree}
    (h : mergeValue? es = some v) : v.depth ≤ DataTree.depthOfEntries es := by
  obtain ⟨e, he, rfl⟩ := Option.map_eq_some_iff.mp h
  exact depth_le_of_mem_entries (List.mem_of_mem_filter (List.mem_of_getLast? he))

/-- The mappings that a merge key names lie below it. -/
theorem depth_lt_of_mergeSources (n : DataTree) :
    Yields (mergeSources n) fun ss => ∀ es ∈ ss, DataTree.depthOfEntries es < n.depth := by
  unfold mergeSources
  split
  · next es => exact yields_pure (List.forall_mem_singleton.mpr (Nat.lt_succ_self _))
  · next es => exact yields_pure (List.forall_mem_singleton.mpr (Nat.lt_succ_of_lt (Nat.lt_succ_self _)))
  · exact yields_throw _
  · next line tag items =>
      refine yields_mapM fun t ht => ?_
      have hdepth : t.depth < DataTree.depth (.list line tag items) :=
        Nat.lt_succ_of_le (depth_le_of_mem ht)
      split
      · exact yields_pure (Nat.lt_trans (Nat.lt_succ_self _) hdepth)
      · exact yields_pure (Nat.lt_trans (Nat.lt_succ_of_lt (Nat.lt_succ_self _)) hdepth)
      · exact yields_throw _
      · exact yields_throw _
  · exact yields_throw _

variable {item item' : DataTree → Decode (Option α)} {target : String} {strict : Bool}
  {field field' : Field ρ} {k : Nat}

/-- Collecting depends on the decoder at the items only. -/
theorem collect_congr {ns : List DataTree} (h : ∀ n ∈ ns, item n = item' n) :
    collect item ns = collect item' ns := by
  induction ns with
  | nil => rfl
  | cons n ns ih =>
      rw [collect, collect, h n List.mem_cons_self, ih fun m hm => h m (List.mem_cons_of_mem _ hm)]

/-- A list looks at what lies below it. -/
theorem list_congr {n : DataTree} (h : ∀ t, t.depth < n.depth → item t = item' t) :
    list target item n = list target item' n := by
  unfold list
  refine bind_congr_of_yields (depth_le_of_deref n) fun t ht => ?_
  cases t with
  | list line tag items =>
      dsimp only
      rw [collect_congr fun m hm => h m ?_]
      exact Nat.lt_of_lt_of_le (Nat.lt_succ_of_le (depth_le_of_mem hm)) ht
  | _ => rfl

/-- Filling depends on the decoders of the fields at the entries only. -/
theorem fill_congr {merged : Bool} {es : List (DataTree × DataTree)}
    (h : ∀ e ∈ es, ∀ r name, field r name e.2 = field' r name e.2) (taken done : List String)
    (r : ρ) : fill target strict merged field es taken done r =
      fill target strict merged field' es taken done r := by
  induction es generalizing taken done r with
  | nil => rfl
  | cons e es ih =>
      obtain ⟨key, value⟩ := e
      have hvalue : ∀ r name, field r name value = field' r name value :=
        h (key, value) List.mem_cons_self
      have hrest := ih fun e he => h e (List.mem_cons_of_mem _ he)
      simp only [fill, hvalue, hrest]

/-- Filling from merged mappings depends on the decoders below the bound only. -/
theorem fillMerged_congr (h : ∀ r name n, n.depth < k → field r name n = field' r name n)
    {limit : Nat} {sources : List (List (DataTree × DataTree))}
    (hsources : ∀ es ∈ sources, DataTree.depthOfEntries es < k) (taken : List String) (r : ρ) :
    fillMerged target strict field limit sources taken r =
      fillMerged target strict field' limit sources taken r := by
  induction limit generalizing sources taken r with
  | zero => rfl
  | succ limit ih =>
      cases sources with
      | nil => rfl
      | cons es rest =>
          obtain ⟨hes, hrest⟩ := List.forall_mem_cons.mp hsources
          unfold fillMerged
          refine bind_congr fun ok => ?_
          split
          · rw [fill_congr fun e he r name =>
              h r name e.2 (Nat.lt_of_le_of_lt (depth_le_of_mem_entries he) hes)]
            refine bind_congr fun x => ?_
            dsimp only
            split
            · next v hv =>
                -- What is merged in turn lies below the value of the last merge key.
                refine bind_congr_of_yields (depth_lt_of_mergeSources v) fun inner hinner => ?_
                have hv' : v.depth < k := Nat.lt_of_le_of_lt (depth_le_of_mergeValue? hv) hes
                refine ih (fun es' hmem => ?_) _ _
                rcases List.mem_append.mp hmem with hmem | hmem
                · exact Nat.lt_trans (hinner es' hmem) hv'
                · exact hrest es' hmem
            · exact ih hrest _ _
          · exact ih hrest _ _

/-- A record looks at what lies below it. -/
theorem record_congr {empty : ρ} {n : DataTree}
    (h : ∀ r name t, t.depth < n.depth → field r name t = field' r name t) :
    record target strict empty field n = record target strict empty field' n := by
  unfold record
  refine bind_congr_of_yields (depth_le_of_deref n) fun t ht => ?_
  cases t with
  | mapping line tag es =>
      have hes : DataTree.depthOfEntries es < n.depth := Nat.lt_of_lt_of_le (Nat.lt_succ_self _) ht
      refine bind_congr fun ok => ?_
      split
      · rw [fill_congr fun e he r name =>
          h r name e.2 (Nat.lt_of_le_of_lt (depth_le_of_mem_entries he) hes)]
        refine bind_congr fun x => ?_
        dsimp only
        split
        · rfl
        · next v hv =>
            refine bind_congr fun names => ?_
            refine bind_congr_of_yields (depth_lt_of_mergeSources v) fun sources hsources => ?_
            have hv' : v.depth < n.depth := Nat.lt_of_le_of_lt (depth_le_of_mergeValue? hv) hes
            rw [fillMerged_congr h fun es' hes' => Nat.lt_trans (hsources es' hes') hv']
      · rfl
  | _ => rfl

end Levels

end Decode

mutual

/-- A tree that is read where a value was written: lines are free, and so is the order of the
members of a mapping. -/
def Rereads : Json → DataTree → Prop
  | .str s, .scalar _ tag text => tag = "!!str" ∧ text = s
  | .num s, .scalar _ tag text => tag = "!!int" ∧ text = s ∧ ∃ n : Int, s = toString n
  | .arr vs, .list _ tag items => tag = "!!seq" ∧ RereadsAll vs items
  | .obj ms, .mapping _ tag entries => tag = "!!map" ∧ ∃ es, RereadsMembers ms es ∧ es.Perm entries
  | _, _ => False

/-- The trees of several values, one by one. -/
def RereadsAll : List Json → List DataTree → Prop
  | [], [] => True
  | v :: vs, t :: ts => Rereads v t ∧ RereadsAll vs ts
  | _, _ => False

/-- The entries of several members, one by one; the names are texts. -/
def RereadsMembers : List (String × Json) → List (DataTree × DataTree) → Prop
  | [], [] => True
  | (name, v) :: ms, (key, t) :: es =>
    (∃ line, key = .scalar line "!!str" name) ∧ Rereads v t ∧ RereadsMembers ms es
  | _, _ => False

end

section Rereads

variable {t : DataTree} {ts : List DataTree} {v : Json} {s name : String}

/-- A string is read again as a scalar with the tag of strings. -/
theorem rereads_str (h : Rereads (.str s) t) : ∃ line, t = .scalar line "!!str" s := by
  cases t with
  | scalar line tag text =>
      obtain ⟨rfl, rfl⟩ := h
      exact ⟨line, rfl⟩
  | _ => exact h.elim

/-- A number is read again as a scalar with the tag of numbers. -/
theorem rereads_int {n : Int} (h : Rereads (.int n) t) :
    ∃ line, t = .scalar line "!!int" (toString n) := by
  cases t with
  | scalar line tag text =>
      obtain ⟨rfl, rfl, -⟩ := h
      exact ⟨line, rfl⟩
  | _ => exact h.elim

/-- An array is read again as a sequence of what its items are read as. -/
theorem rereads_arr {vs : List Json} (h : Rereads (.arr vs) t) :
    ∃ line items, t = .list line "!!seq" items ∧ RereadsAll vs items := by
  cases t with
  | list line tag items =>
      obtain ⟨rfl, hitems⟩ := h
      exact ⟨line, items, rfl, hitems⟩
  | _ => exact h.elim

theorem exists_rereads_arr {vs : List Json} (h : ∃ ts, RereadsAll vs ts) :
    ∃ t, Rereads (.arr vs) t := by
  obtain ⟨ts, hts⟩ := h
  exact ⟨.list 1 "!!seq" ts, rfl, hts⟩

theorem exists_rereads_strs (l : List String) : ∃ t, Rereads (.strs l) t := by
  refine exists_rereads_arr ⟨l.map (.scalar 1 "!!str"), ?_⟩
  induction l with
  | nil => trivial
  | cons s l ih => exact ⟨⟨rfl, rfl⟩, ih⟩

/-- An object is read again as some mapping when its values are. -/
theorem exists_rereads_obj {ms : List (String × Json)} (h : ∀ m ∈ ms, ∃ t, Rereads m.2 t) :
    ∃ t, Rereads (.obj ms) t := by
  have hes : ∃ es, RereadsMembers ms es := by
    induction ms with
    | nil => exact ⟨[], trivial⟩
    | cons m ms ih =>
        obtain ⟨t, ht⟩ := h m List.mem_cons_self
        obtain ⟨es, hes⟩ := ih fun m' hm' => h m' (List.mem_cons_of_mem _ hm')
        exact ⟨(.scalar 1 "!!str" m.1, t) :: es, ⟨1, rfl⟩, ht, hes⟩
  obtain ⟨es, hes⟩ := hes
  exact ⟨.mapping 1 "!!map" es, rfl, es, hes, .refl es⟩

/-- The tree of one member. -/
theorem rereads_single (h : Rereads (.obj [(name, v)]) t) :
    ∃ line l value, t = .mapping line "!!map" [(.scalar l "!!str" name, value)] ∧
      Rereads v value := by
  cases t with
  | mapping line tag entries =>
      obtain ⟨rfl, es, hes, hperm⟩ := h
      match es, hes with
      | [(key, value)], ⟨⟨l, hkey⟩, hvalue, _⟩ =>
          rw [← List.singleton_perm.mp hperm, hkey]
          exact ⟨line, l, value, rfl, hvalue⟩
  | _ => exact h.elim

end Rereads

namespace Decode

variable {α ρ ι : Type} {t : DataTree}

/-- A string that is read again gives its text. -/
theorem gives_text {s : String} (h : Rereads (.str s) t) : Gives (text t) (some s) := by
  obtain ⟨line, rfl⟩ := rereads_str h
  exact fun issues => rfl

/-- A number that is read again gives itself, within 64 bits. -/
theorem gives_int {n : Int} (hn : isInt64 n = true) (h : Rereads (.int n) t) :
    Gives (int t) (some n) := by
  obtain ⟨line, rfl⟩ := rereads_int h
  have hmeaning : meaning "!!int" (toString n) = pure (.int n) := by
    unfold meaning
    rw [if_neg (by decide), if_neg (by decide), if_neg (by decide),
      show decide ("!!int" = "!!timestamp") = false by decide, Scalar.resolveAs_toString hn]
    rfl
  intro issues
  unfold int number scalar
  simp only [deref, pure_bind, if_neg (show ¬ "!!int" = "!!null" by decide), hmeaning, hn, if_true]
  rfl

/-- A list of strings that is read again gives the list. -/
theorem gives_texts {target : String} {l : List String} (h : Rereads (.strs l) t) :
    Gives (list target text t) (some l) := by
  obtain ⟨line, items, rfl, hitems⟩ := rereads_arr h
  have hcollect : Gives (collect text items) l := by
    clear h
    induction l generalizing items with
    | nil =>
        cases items with
        | nil => exact gives_pure []
        | cons t ts => exact hitems.elim
    | cons s l ih =>
        cases items with
        | nil => exact hitems.elim
        | cons t ts =>
            obtain ⟨hs, hl⟩ := hitems
            exact (gives_text hs).bind ((ih ts hl).bind (gives_pure _))
  exact (gives_pure _).bind (hcollect.map some)

section Record

variable {key : ι → String} {val : ι → Json} {xs : List ι}
  {es : List (DataTree × DataTree)}

/-- An entry of a mapping that is read where a member was written. -/
def IsEntry (key : ι → String) (val : ι → Json) (x : ι) (e : DataTree × DataTree) : Prop :=
  (∃ line, e.1 = .scalar line "!!str" (key x)) ∧ Rereads (val x) e.2

/-- The entries of a written record stand in the order of its fields. -/
theorem forall₂_isEntry (h : RereadsMembers (xs.map fun x => (key x, val x)) es) :
    List.Forall₂ (IsEntry key val) xs es := by
  induction xs generalizing es with
  | nil =>
      cases es with
      | nil => exact .nil
      | cons e es => exact h.elim
  | cons x xs ih =>
      cases es with
      | nil => exact h.elim
      | cons e es => exact .cons ⟨h.1, h.2.1⟩ (ih h.2.2)

/-- The entries of a written mapping, and its members in the same order. -/
theorem rereads_obj (h : Rereads (.obj (xs.map fun x => (key x, val x))) t) :
    ∃ line tag entries ys, t = .mapping line tag entries ∧ ys.Perm xs ∧
      List.Forall₂ (IsEntry key val) ys entries := by
  cases t with
  | mapping line tag entries =>
      obtain ⟨-, es, hes, hperm⟩ := h
      obtain ⟨ys, hys, hxs⟩ := List.perm_comp_forall₂ hperm.symm (forall₂_isEntry hes).flip
      exact ⟨line, tag, entries, ys, rfl, hxs, hys.flip⟩
  | _ => exact h.elim

/-- No written field is a merge key. -/
theorem isMerge_of_isEntry {x : ι} {e : DataTree × DataTree} (h : IsEntry key val x e) :
    isMerge e.1 = false := by
  obtain ⟨line, hline⟩ := h.1
  rw [hline]
  unfold isMerge
  split
  · next heq =>
      obtain ⟨-, htag, -⟩ := DataTree.scalar.inj heq
      rw [← htag]
      decide
  · rfl

theorem exists_isEntry_of_mem (h : List.Forall₂ (IsEntry key val) xs es) {e : DataTree × DataTree}
    (he : e ∈ es) : ∃ x ∈ xs, IsEntry key val x e := by
  induction h with
  | nil => cases he
  | cons hx _ ih =>
      rcases List.mem_cons.mp he with rfl | he
      · exact ⟨_, List.mem_cons_self, hx⟩
      · obtain ⟨x, hmem, hx⟩ := ih he
        exact ⟨x, List.mem_cons_of_mem _ hmem, hx⟩

/-- Fields with different names pass the check for repeated keys. -/
theorem gives_checkKeys (h : List.Forall₂ (IsEntry key val) xs es) (hkeys : (xs.map key).Nodup) :
    Gives (checkKeys es) true := by
  induction h with
  | nil => exact gives_pure true
  | @cons x e xs es hx hrest ih =>
      obtain ⟨hnew, hkeys⟩ := List.nodup_cons.mp hkeys
      obtain ⟨k, v⟩ := e
      obtain ⟨line, rfl⟩ := hx.1
      unfold checkKeys
      dsimp only
      rw [List.filter_eq_nil_iff.mpr]
      · exact (gives_pure ()).bind ((ih hkeys).bind (gives_pure _))
      · intro e he
        obtain ⟨y, hy, ⟨l, hl⟩, -⟩ := exists_isEntry_of_mem hrest he
        have hne : key y ≠ key x := fun heq => hnew (heq ▸ List.mem_map_of_mem hy)
        simp only [hl, DataTree.text, Bool.and_eq_true, decide_eq_true_eq, not_and]
        exact fun _ => hne

theorem mergeValue?_eq_none (h : List.Forall₂ (IsEntry key val) xs es) : mergeValue? es = none := by
  have hnone : es.filter (fun e => isMerge e.1) = [] := by
    refine List.filter_eq_nil_iff.mpr fun e he => ?_
    obtain ⟨x, -, hx⟩ := exists_isEntry_of_mem h he
    rw [isMerge_of_isEntry hx]
    exact Bool.false_ne_true
  unfold mergeValue?
  rw [hnone]
  rfl

variable {target : String} {strict : Bool} {field : Field ρ} {set : ρ → ι → ρ}

/-- A written record is filled again field by field. -/
theorem gives_fill (h : List.Forall₂ (IsEntry key val) xs es)
    (hfield : ∀ x r n, x ∈ xs → Rereads (val x) n →
      ∃ d, field r (key x) n = some d ∧ Gives d (set r x))
    {done : List String} (hkeys : (xs.map key).Nodup) (hdone : ∀ x ∈ xs, key x ∉ done)
    (taken : List String) (r : ρ) :
    Gives (fill target strict false field es taken done r) (taken, xs.foldl set r) := by
  -- The keys in `done` were set before, and none of them is still to come.
  induction h generalizing done r with
  | nil => exact gives_pure _
  | @cons x e xs es hx hrest ih =>
      obtain ⟨hnew, hkeys⟩ := List.nodup_cons.mp hkeys
      have hmerge := isMerge_of_isEntry hx
      obtain ⟨k, v⟩ := e
      obtain ⟨⟨line, rfl⟩, hv⟩ := hx
      obtain ⟨d, hd, hgives⟩ := hfield x r v List.mem_cons_self hv
      have hnot : done.contains (key x) = false := by
        simpa using hdone x List.mem_cons_self
      unfold fill
      rw [if_neg (by simpa using hmerge)]
      refine (gives_text (t := .scalar line "!!str" (key x)) ⟨rfl, rfl⟩).bind ?_
      simp only [Bool.false_and, Bool.false_eq_true, if_false, hd, hnot]
      refine hgives.bind (ih (fun y r n hy => hfield y r n (List.mem_cons_of_mem _ hy)) hkeys ?_ _)
      intro y hy hmem
      rcases List.mem_cons.mp hmem with heq | hmem
      · exact hnew (heq ▸ List.mem_map_of_mem hy)
      · exact hdone y (List.mem_cons_of_mem _ hy) hmem

/-- **A written record is read back.**  Its fields are set one by one; if different fields do not
get into each other's way, the order of the members does not matter. -/
theorem gives_record {empty : ρ} (h : Rereads (.obj (xs.map fun x => (key x, val x))) t)
    (hfield : ∀ x r n, x ∈ xs → Rereads (val x) n →
      ∃ d, field r (key x) n = some d ∧ Gives d (set r x))
    (hkeys : (xs.map key).Nodup)
    (hset : ∀ x y r, key x ≠ key y → set (set r x) y = set (set r y) x) :
    Gives (record target strict empty field t) (some (xs.foldl set empty)) := by
  obtain ⟨line, tag, entries, ys, rfl, hperm, hys⟩ := rereads_obj h
  have hkeys' : (ys.map key).Nodup := (hperm.map key).nodup_iff.mpr hkeys
  have hfold : ys.foldl set empty = xs.foldl set empty := by
    refine hperm.foldl_eq' (fun x hx y hy r => ?_) empty
    by_cases heq : key x = key y
    · rw [List.inj_on_of_nodup_map hkeys' hx hy heq]
    · exact hset x y r heq
  unfold record
  refine (gives_pure _).bind ((gives_checkKeys hys hkeys').bind ?_)
  rw [if_pos rfl]
  refine (gives_fill hys (fun x r n hx => hfield x r n (hperm.mem_iff.mp hx)) hkeys'
    (fun _ _ => List.not_mem_nil) [] empty).bind ?_
  simp only [mergeValue?_eq_none hys, hfold]
  exact gives_pure _

end Record

end Decode

end Yaml
end InstallerLint
