import InstallerLint.Path
import Mathlib.Data.List.Basic
import Mathlib.Tactic.SplitIfs

/-!
# Clean paths

The parts of a clean path are `..` first, if it does not start at the root, and then proper names
(`Clean`).  Such parts are read back from the path that is written from them, and joining a clean
path with a name adds the name to its parts.
-/

namespace InstallerLint
namespace Path

/-- A name that stands for itself in a path. -/
structure Proper (part : String) : Prop where
  ne_empty : part ≠ ""
  ne_dot : part ≠ "."
  ne_up : part ≠ ".."
  no_slash : '/' ∉ part.toList

instance (part : String) : Decidable (Proper part) :=
  decidable_of_iff (part ≠ "" ∧ part ≠ "." ∧ part ≠ ".." ∧ '/' ∉ part.toList)
    ⟨fun ⟨hempty, hdot, hup, hslash⟩ => ⟨hempty, hdot, hup, hslash⟩,
      fun h => ⟨h.ne_empty, h.ne_dot, h.ne_up, h.no_slash⟩⟩

/-- The form of the parts of a clean path. -/
def Clean (rooted : Bool) (ps : List String) : Prop :=
  ∃ ups names, ps = ups ++ names ∧ (∀ u ∈ ups, u = "..") ∧ (∀ n ∈ names, Proper n) ∧
    (rooted = true → ups = [])

section Parts

/-- The parts of a path behind a slash follow those in front. -/
theorem parts_append (a b : String) : parts (a ++ "/" ++ b) = parts a ++ parts b := by
  have hsplit : (a ++ "/" ++ b).toList.splitOn '/' =
      a.toList.splitOn '/' ++ b.toList.splitOn '/' := by
    rw [String.toList_append, String.toList_append, List.append_assoc]
    exact List.splitOn_append_cons_self a.toList b.toList
  rw [parts, hsplit, List.map_append]
  rfl

theorem no_slash_of_mem_parts {p part : String} (h : part ∈ parts p) : '/' ∉ part.toList := by
  obtain ⟨cs, hcs, rfl⟩ := List.mem_map.mp h
  rw [String.toList_ofList]
  clear h
  generalize p.toList = l at hcs
  induction l generalizing cs with
  | nil =>
      rw [List.splitOn_nil] at hcs
      obtain rfl := List.mem_singleton.mp hcs
      exact List.not_mem_nil
  | cons c l ih =>
      rw [List.splitOn_cons_eq_if_modifyHead] at hcs
      split_ifs at hcs with hc
      · rcases List.mem_cons.mp hcs with rfl | hcs
        · exact List.not_mem_nil
        · exact ih cs hcs
      · cases hl : l.splitOn '/' with
        | nil => exact absurd hl (List.splitOn_ne_nil _ _)
        | cons first rest =>
            rw [hl, List.modifyHead_cons] at hcs
            rw [hl] at ih
            rcases List.mem_cons.mp hcs with rfl | hcs
            · have hfirst := ih first List.mem_cons_self
              simp only [beq_iff_eq] at hc
              simp [hfirst, Ne.symm hc]
            · exact ih cs (List.mem_cons_of_mem _ hcs)

/-- Parts without slashes are the parts of the path they make. -/
theorem parts_intercalate {ps : List String} (hne : ps ≠ []) (h : ∀ p ∈ ps, '/' ∉ p.toList) :
    parts ("/".intercalate ps) = ps := by
  rw [parts, String.toList_intercalate]
  have hslash : "/".toList = ['/'] := rfl
  rw [hslash, List.splitOn_intercalate]
  · rw [List.map_map]
    simp
  · intro l hl
    obtain ⟨p, hp, rfl⟩ := List.mem_map.mp hl
    exact h p hp
  · simpa using hne

end Parts

section Cleaning

variable {rooted : Bool} {ps : List String}

theorem Clean.no_slash (h : Clean rooted ps) : ∀ p ∈ ps, '/' ∉ p.toList := by
  obtain ⟨ups, names, rfl, hups, hnames, -⟩ := h
  intro p hp
  rcases List.mem_append.mp hp with hp | hp
  · rw [hups p hp]
    decide
  · exact (hnames p hp).no_slash

theorem Clean.ne_empty (h : Clean rooted ps) : ∀ p ∈ ps, p ≠ "" := by
  obtain ⟨ups, names, rfl, hups, hnames, -⟩ := h
  intro p hp
  rcases List.mem_append.mp hp with hp | hp
  · rw [hups p hp]
    decide
  · exact (hnames p hp).ne_empty

theorem Clean.append (h : Clean rooted ps) {names : List String} (hnames : ∀ n ∈ names, Proper n) :
    Clean rooted (ps ++ names) := by
  obtain ⟨ups, front, rfl, hups, hfront, hroot⟩ := h
  refine ⟨ups, front ++ names, by rw [List.append_assoc], hups, ?_, hroot⟩
  intro n hn
  rcases List.mem_append.mp hn with hn | hn
  · exact hfront n hn
  · exact hnames n hn

theorem Clean.concat (h : Clean rooted ps) {name : String} (hname : Proper name) :
    Clean rooted (ps ++ [name]) :=
  h.append fun _ hn => List.mem_singleton.mp hn ▸ hname

theorem Clean.take (h : Clean rooted ps) (k : Nat) : Clean rooted (ps.take k) := by
  obtain ⟨ups, names, rfl, hups, hnames, hroot⟩ := h
  rw [List.take_append]
  refine ⟨ups.take k, names.take (k - ups.length), rfl, ?_, ?_, ?_⟩
  · exact fun u hu => hups u (List.mem_of_mem_take hu)
  · exact fun n hn => hnames n (List.mem_of_mem_take hn)
  · intro hr
    rw [hroot hr, List.take_nil]

/-- Behind a part that is a name only names follow. -/
theorem Clean.names_of_not_up {front back : List String} {part : String}
    (h : Clean rooted (front ++ part :: back)) (hpart : part ≠ "..") : ∀ n ∈ part :: back, Proper n := by
  obtain ⟨ups, names, heq, hups, hnames, -⟩ := h
  rcases List.append_eq_append_iff.mp heq with ⟨middle, hmiddle, hback⟩ | ⟨middle, hmiddle, hback⟩
  · cases middle with
    | nil =>
        intro n hn
        exact hnames n (by rw [List.nil_append] at hback; rwa [← hback])
    | cons x middle =>
        obtain ⟨rfl, -⟩ := List.cons.inj hback
        exact absurd (hups part (by rw [hmiddle]; simp)) hpart
  · intro n hn
    refine hnames n ?_
    rw [hback]
    exact List.mem_append_right _ hn

/-- Reading a part keeps the form. -/
theorem Clean.push {done : List String} (h : Clean rooted done.reverse) {part : String}
    (hpart : '/' ∉ part.toList) : Clean rooted (push rooted done part).reverse := by
  unfold Path.push
  by_cases hidle : (part = "" || part = ".") = true
  · rw [if_pos hidle]
    exact h
  rw [if_neg hidle]
  by_cases hup : part = ".."
  · rw [if_pos hup]
    cases done with
    | nil =>
        cases rooted with
        | true => exact h
        | false => exact ⟨[".."], [], rfl, by simp, by simp, by simp⟩
    | cons last rest =>
        obtain ⟨ups, names, heq, hups, hnames, hroot⟩ := h
        rw [List.reverse_cons] at heq
        dsimp only
        rcases List.eq_nil_or_concat names with rfl | ⟨names, name, rfl⟩
        · rw [List.append_nil] at heq
          have hlast : last = ".." := hups last (by rw [← heq]; simp)
          rw [if_pos hlast]
          refine ⟨ups ++ [".."], [], ?_, ?_, by simp, ?_⟩
          · rw [List.reverse_cons, List.reverse_cons, heq, List.append_nil]
          · intro u hu
            rcases List.mem_append.mp hu with hu | hu
            · exact hups u hu
            · exact List.mem_singleton.mp hu
          · intro hr
            rw [hroot hr] at heq
            simp at heq
        · rw [List.concat_eq_append, ← List.append_assoc] at heq
          obtain ⟨hrest, hl⟩ := List.append_inj' heq rfl
          obtain rfl : last = name := by simpa using hl
          have hproper := hnames last (by simp)
          rw [if_neg hproper.ne_up]
          exact ⟨ups, names, hrest, hups, fun n hn => hnames n (by simp [hn]), hroot⟩
  · rw [if_neg hup, List.reverse_cons]
    simp only [Bool.or_eq_true, decide_eq_true_eq, not_or] at hidle
    exact h.concat ⟨hidle.1, hidle.2, hup, hpart⟩

/-- Cleaning gives clean parts. -/
theorem clean_cleanParts (p : String) : Clean (isAbs p) (cleanParts p) := by
  have hfold : ∀ (l done : List String), (∀ part ∈ l, '/' ∉ part.toList) →
      Clean (isAbs p) done.reverse → Clean (isAbs p) (l.foldl (push (isAbs p)) done).reverse := by
    intro l
    induction l with
    | nil => exact fun done _ h => h
    | cons part l ih =>
        intro done hl h
        exact ih _ (fun q hq => hl q (List.mem_cons_of_mem _ hq))
          (h.push (hl part List.mem_cons_self))
  exact hfold _ [] (fun part hpart => no_slash_of_mem_parts hpart) ⟨[], [], rfl, by simp, by simp, by simp⟩

theorem push_proper {done : List String} {name : String} (h : Proper name) :
    push rooted done name = name :: done := by
  unfold push
  rw [if_neg (by simp [h.ne_empty, h.ne_dot]), if_neg h.ne_up]

/-- Names are read as they are. -/
theorem foldl_push_names {names : List String} (h : ∀ n ∈ names, Proper n) (done : List String) :
    names.foldl (Path.push rooted) done = names.reverse ++ done := by
  induction names generalizing done with
  | nil => rfl
  | cons n names ih =>
      rw [List.foldl_cons, push_proper (h n List.mem_cons_self),
        ih (fun m hm => h m (List.mem_cons_of_mem _ hm)), List.reverse_cons, List.append_assoc]
      rfl

/-- Parts of a clean path are read as they are. -/
theorem Clean.foldl_push (h : Clean rooted ps) : ps.foldl (Path.push rooted) [] = ps.reverse := by
  obtain ⟨ups, names, rfl, hups, hnames, hroot⟩ := h
  have hfoldUps : ∀ (l done : List String), rooted = false → (∀ u ∈ l, u = "..") →
      (∀ u ∈ done, u = "..") → l.foldl (Path.push rooted) done = l.reverse ++ done := by
    intro l
    induction l with
    | nil => exact fun _ _ _ _ => rfl
    | cons u l ih =>
        intro done hr hl hdone
        obtain rfl := hl u List.mem_cons_self
        have hstep : Path.push rooted done ".." = ".." :: done := by
          rw [hr]
          cases done with
          | nil => rfl
          | cons last rest =>
              obtain rfl := hdone last List.mem_cons_self
              rfl
        rw [List.foldl_cons, hstep, ih _ hr (fun m hm => hl m (List.mem_cons_of_mem _ hm)),
          List.reverse_cons, List.append_assoc]
        · rfl
        · intro v hv
          rcases List.mem_cons.mp hv with rfl | hv
          · rfl
          · exact hdone v hv
  cases rooted with
  | true =>
      rw [hroot rfl, List.nil_append, foldl_push_names hnames, List.append_nil]
  | false =>
      rw [List.foldl_append, hfoldUps _ _ rfl hups (by simp), foldl_push_names hnames,
        List.append_nil, List.reverse_append]

end Cleaning

section Writing

variable {rooted : Bool} {ps : List String}

theorem ofParts_of_ne_nil (hne : ps ≠ []) :
    ofParts rooted ps = if rooted then "/" ++ "/".intercalate ps else "/".intercalate ps := by
  cases rooted with
  | true => rfl
  | false =>
      cases ps with
      | nil => exact absurd rfl hne
      | cons p ps => rfl

theorem isAbs_ofParts (h : Clean rooted ps) : isAbs (ofParts rooted ps) = rooted := by
  cases rooted with
  | true => simp [ofParts, isAbs]
  | false =>
      cases ps with
      | nil => rfl
      | cons p ps =>
          have hne := h.ne_empty p List.mem_cons_self
          have hslash := h.no_slash p List.mem_cons_self
          have hhead : ("/".intercalate (p :: ps)).toList.head? = p.toList.head? := by
            cases ps with
            | nil => rw [String.intercalate_singleton]
            | cons q ps =>
                rw [String.intercalate_cons_cons, String.toList_append, String.toList_append]
                cases hp : p.toList with
                | nil => exact absurd (String.toList_eq_nil_iff.mp hp) hne
                | cons c cs => rfl
          rw [ofParts_of_ne_nil (List.cons_ne_nil _ _), if_neg (by decide), isAbs, hhead]
          cases hp : p.toList with
          | nil => rfl
          | cons c cs =>
              have hc : c ≠ '/' := by
                rintro rfl
                exact hslash (by rw [hp]; exact List.mem_cons_self)
              simpa using hc

/-- The parts of a path that is written from parts. -/
theorem parts_ofParts (h : Clean rooted ps) (hne : ps ≠ []) :
    parts (ofParts rooted ps) = if rooted then "" :: ps else ps := by
  rw [ofParts_of_ne_nil hne]
  cases rooted with
  | true =>
      rw [if_pos rfl, if_pos rfl]
      have hroot : "/" ++ "/".intercalate ps = "" ++ "/" ++ "/".intercalate ps := by
        rw [String.empty_append]
      rw [hroot, parts_append, parts_intercalate hne h.no_slash]
      rfl
  | false =>
      rw [if_neg (by decide), if_neg (by decide), parts_intercalate hne h.no_slash]

/-- Clean parts are the parts of the path they make. -/
theorem cleanParts_ofParts (h : Clean rooted ps) : cleanParts (ofParts rooted ps) = ps := by
  by_cases hne : ps = []
  · subst hne
    cases rooted <;> decide
  · rw [cleanParts, isAbs_ofParts h, parts_ofParts h hne]
    cases rooted with
    | true =>
        rw [if_pos rfl, List.foldl_cons, show push true [] "" = [] from rfl, h.foldl_push,
          List.reverse_reverse]
    | false => rw [if_neg (by decide), h.foldl_push, List.reverse_reverse]

theorem ofParts_ne_empty (h : Clean rooted ps) : ofParts rooted ps ≠ "" := by
  intro hempty
  by_cases hne : ps = []
  · subst hne
    cases rooted
    · exact absurd hempty (by decide)
    · exact absurd hempty (by decide)
  · have hparts := parts_ofParts h hne
    rw [hempty, show parts "" = [""] from rfl] at hparts
    cases rooted with
    | true =>
        rw [if_pos rfl] at hparts
        exact hne (List.cons.inj hparts).2.symm
    | false =>
        rw [if_neg (by decide)] at hparts
        exact h.ne_empty "" (by rw [← hparts]; exact List.mem_cons_self) rfl

theorem isAbs_append {dir : String} (h : dir ≠ "") (s : String) : isAbs (dir ++ s) = isAbs dir := by
  unfold isAbs
  rw [String.toList_append]
  cases hd : dir.toList with
  | nil => exact absurd (String.toList_eq_nil_iff.mp hd) h
  | cons c cs => rfl

theorem clean_names {names : List String} (h : ∀ n ∈ names, Proper n) : Clean rooted names :=
  ⟨[], names, rfl, by simp, h, fun _ => rfl⟩

/-- Joining with names adds them to the clean parts. -/
theorem join_names (dir : String) {names : List String} (hne : names ≠ [])
    (h : ∀ n ∈ names, Proper n) :
    join [dir, "/".intercalate names] = ofParts (isAbs dir) (cleanParts dir ++ names) := by
  have htext : ofParts false names = "/".intercalate names := by
    rw [ofParts_of_ne_nil hne, if_neg (by decide)]
  have hnonempty : "/".intercalate names ≠ "" := htext ▸ ofParts_ne_empty (clean_names h)
  have hparts : parts ("/".intercalate names) = names :=
    parts_intercalate hne fun n hn => (h n hn).no_slash
  by_cases hdir : dir = ""
  · subst hdir
    have habs : isAbs ("/".intercalate names) = false := htext ▸ isAbs_ofParts (clean_names h)
    have hfilter : ["", "/".intercalate names].filter (· ≠ "") = ["/".intercalate names] := by
      simp [hnonempty]
    rw [join, hfilter]
    dsimp only
    rw [String.intercalate_singleton, clean, cleanParts, habs, hparts, foldl_push_names h,
      List.append_nil, List.reverse_reverse]
    rfl
  · have hfilter : [dir, "/".intercalate names].filter (· ≠ "") =
        [dir, "/".intercalate names] := by simp [hdir, hnonempty]
    have hjoined : "/".intercalate [dir, "/".intercalate names] =
        dir ++ "/" ++ "/".intercalate names := by
      rw [String.intercalate_cons_cons, String.intercalate_singleton]
    have habs : isAbs (dir ++ "/" ++ "/".intercalate names) = isAbs dir := by
      rw [String.append_assoc, isAbs_append hdir]
    rw [join, hfilter]
    dsimp only
    rw [hjoined, clean, cleanParts, habs, parts_append, hparts, List.foldl_append,
      foldl_push_names h, List.reverse_append, List.reverse_reverse]
    rfl

/-- Joining with a name adds the name to the clean parts. -/
theorem join_proper (dir : String) {name : String} (h : Proper name) :
    join [dir, name] = ofParts (isAbs dir) (cleanParts dir ++ [name]) := by
  have hjoin := join_names dir (List.cons_ne_nil name []) (by simpa using h)
  rwa [String.intercalate_singleton] at hjoin

theorem intercalate_concat {ps : List String} (hne : ps ≠ []) (name : String) :
    "/".intercalate (ps ++ [name]) = "/".intercalate ps ++ "/" ++ name := by
  induction ps with
  | nil => exact absurd rfl hne
  | cons p ps ih =>
      cases ps with
      | nil => rfl
      | cons q ps =>
          have hrest := ih (List.cons_ne_nil q ps)
          rw [List.cons_append] at hrest
          rw [List.cons_append, List.cons_append, String.intercalate_cons_cons, hrest,
            String.intercalate_cons_cons]
          simp only [String.append_assoc]

/-- Adding a name to a path that is written from parts. -/
theorem ofParts_concat (hne : ps ≠ []) (name : String) :
    ofParts rooted (ps ++ [name]) = ofParts rooted ps ++ "/" ++ name := by
  rw [ofParts_of_ne_nil (by simp), ofParts_of_ne_nil hne, intercalate_concat hne]
  cases rooted <;> simp [String.append_assoc]

/-- The ending of a path is that of its last name. -/
theorem ext_append_name (front : String) {name : String} (h : '/' ∉ name.toList) :
    ext (front ++ "/" ++ name) = ext name := by
  have hlast : ∀ back : List Char,
      (name.toList.reverse ++ back).takeWhile (· ≠ '/') =
        name.toList.reverse ++ back.takeWhile (· ≠ '/') := fun back =>
    List.takeWhile_append_of_pos fun c hc => decide_eq_true fun heq =>
      h (heq ▸ List.mem_reverse.mp hc)
  have hfront : (front ++ "/" ++ name).toList.reverse =
      name.toList.reverse ++ '/' :: front.toList.reverse := by
    simp [String.toList_append]
  have hname : name.toList.reverse.takeWhile (· ≠ '/') = name.toList.reverse := by
    simpa using hlast []
  unfold ext
  rw [hfront, hlast, hname]
  simp

theorem ext_ofParts_concat (rooted : Bool) (ps : List String) {name : String}
    (h : '/' ∉ name.toList) : ext (ofParts rooted (ps ++ [name])) = ext name := by
  by_cases hne : ps = []
  · subst hne
    rw [List.nil_append, ofParts_of_ne_nil (List.cons_ne_nil _ _), String.intercalate_singleton]
    cases rooted with
    | true => exact ext_append_name "" h
    | false => rfl
  · rw [ofParts_concat hne, ext_append_name _ h]

variable {dir name : String}

/-- A name below a directory is absolute when the directory is. -/
theorem isAbs_join (h : Proper name) : isAbs (join [dir, name]) = isAbs dir := by
  rw [join_proper dir h, isAbs_ofParts ((clean_cleanParts dir).concat h)]

/-- The parts below a directory: its parts and the name. -/
theorem cleanParts_join (h : Proper name) :
    cleanParts (join [dir, name]) = cleanParts dir ++ [name] := by
  rw [join_proper dir h, cleanParts_ofParts ((clean_cleanParts dir).concat h)]

end Writing

end Path
end InstallerLint
