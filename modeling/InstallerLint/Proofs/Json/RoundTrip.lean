import InstallerLint.Proofs.Json.Number
import InstallerLint.Proofs.Json.Text
import InstallerLint.Proofs.Text.Utf8

/-!
# What is written is read back

Both layouts of the writer differ only in the blanks between the parts of a value.  A `Layout` says
which blanks these are; the reader skips them, and so reads the value back from each layout
(`readValue_laid`).

**Numbers.**  A number keeps its written form, and not every text is one.  The values here hold
integers only (`Exact`).
-/

namespace InstallerLint
namespace Json

/-- The blanks between the parts of a value. -/
structure Layout where
  /-- Before an item at a level. -/
  before : Nat → List Char
  /-- Behind the last item at a level. -/
  after : Nat → List Char
  colon : List Char
  markup : Bool

/-- All blanks are such. -/
structure Layout.Sound (p : Layout) : Prop where
  before : ∀ n, ∀ c ∈ p.before n, isSpace c = true
  after : ∀ n, ∀ c ∈ p.after n, isSpace c = true
  colon : ∀ c ∈ p.colon, isSpace c = true

/-- The characters of a quoted text. -/
def laidText (markup : Bool) (s : String) : List Char :=
  '"' :: (s.toList.flatMap (escape markup) ++ ['"'])

mutual

/-- The characters of a value in a layout. -/
def laid (p : Layout) (level : Nat) : Json → List Char
  | .null => ['n', 'u', 'l', 'l']
  | .bool b => if b then ['t', 'r', 'u', 'e'] else ['f', 'a', 'l', 's', 'e']
  | .num t => t.toList
  | .str s => laidText p.markup s
  | .arr [] => ['[', ']']
  | .arr (j :: l) => '[' :: (p.before level ++ laid p (level + 1) j ++ laidItems p level l)
  | .obj [] => ['\x7b', '\x7d']
  | .obj ((name, j) :: ms) =>
    '\x7b' :: (p.before level ++ laidText p.markup name ++ ':' :: (p.colon
      ++ laid p (level + 1) j ++ laidMembers p level ms))

/-- The characters of the items behind the first one, with the closing bracket. -/
def laidItems (p : Layout) (level : Nat) : List Json → List Char
  | [] => p.after level ++ [']']
  | j :: l => ',' :: (p.before level ++ laid p (level + 1) j ++ laidItems p level l)

/-- The characters of the members behind the first one, with the closing brace. -/
def laidMembers (p : Layout) (level : Nat) : List (String × Json) → List Char
  | [] => p.after level ++ ['\x7d']
  | (name, j) :: ms =>
    ',' :: (p.before level ++ laidText p.markup name ++ ':' :: (p.colon
      ++ laid p (level + 1) j ++ laidMembers p level ms))

end

mutual

/-- Whether all numbers of a value are written integers. -/
def Exact : Json → Prop
  | .num t => ∃ n : Int, t = toString n
  | .arr l => ExactItems l
  | .obj ms => ExactMembers ms
  | _ => True

/-- Whether all numbers of values are written integers. -/
def ExactItems : List Json → Prop
  | [] => True
  | j :: l => Exact j ∧ ExactItems l

/-- Whether all numbers of members are written integers. -/
def ExactMembers : List (String × Json) → Prop
  | [] => True
  | (_, j) :: ms => Exact j ∧ ExactMembers ms

end

mutual

/-- How many steps reading a value takes. -/
def steps : Json → Nat
  | .arr [] => 1
  | .arr (j :: l) => steps j + stepsOfItems l + 2
  | .obj [] => 1
  | .obj ((_, j) :: ms) => steps j + stepsOfMembers ms + 2
  | _ => 1

/-- How many steps reading the items behind the first one takes. -/
def stepsOfItems : List Json → Nat
  | [] => 0
  | j :: l => steps j + stepsOfItems l + 1

/-- How many steps reading the members behind the first one takes. -/
def stepsOfMembers : List (String × Json) → Nat
  | [] => 0
  | (_, j) :: ms => steps j + stepsOfMembers ms + 1

end

section Blanks

theorem skip_append {b : List Char} (hb : ∀ c ∈ b, isSpace c = true) (cs : List Char) :
    skip (b ++ cs) = skip cs := by
  unfold skip
  exact List.dropWhile_append_of_pos hb

theorem skip_cons {c : Char} (hc : isSpace c = false) (cs : List Char) :
    skip (c :: cs) = c :: cs := by
  simp [skip, hc]

theorem ne_of_isDigit {c : Char} (hc : c.isDigit = true) {d : Char} (hd : d.isDigit = false) :
    c ≠ d := by
  rintro rfl
  rw [hc] at hd
  cases hd

/-- A value does not start with a blank, and not with a closing bracket. -/
theorem head_laid (p : Layout) (level : Nat) {j : Json} (hj : Exact j) :
    ∃ c cs, laid p level j = c :: cs ∧ isSpace c = false ∧ c ≠ ']' := by
  cases j with
  | null => exact ⟨'n', _, rfl, by decide, by decide⟩
  | bool b => cases b <;> exact ⟨_, _, rfl, by decide, by decide⟩
  | num t =>
      obtain ⟨n, rfl⟩ := hj
      obtain ⟨c, cs, hcs, hc⟩ := head_toString n
      refine ⟨c, cs, by rw [laid, hcs], ?_⟩
      rcases hc with rfl | hc
      · decide
      · have hne : ∀ d : Char, d.isDigit = false → c ≠ d := fun d hd => ne_of_isDigit hc hd
        refine ⟨?_, hne ']' (by decide)⟩
        simp [isSpace, hne ' ' (by decide), hne '\t' (by decide), hne '\n' (by decide),
          hne '\r' (by decide)]
  | str s => exact ⟨'"', _, by rw [laid]; rfl, by decide, by decide⟩
  | arr l => cases l <;> exact ⟨'[', _, by rw [laid], by decide, by decide⟩
  | obj ms =>
      cases ms with
      | nil => exact ⟨'\x7b', _, by rw [laid], by decide, by decide⟩
      | cons m ms => exact ⟨'\x7b', _, by rw [laid], by decide, by decide⟩

theorem ends_of_isSpace {c : Char} (hc : isSpace c = true) (cs : List Char) : Ends (c :: cs) := by
  refine ends_cons ?_
  simp only [isSpace, Bool.or_eq_true, beq_iff_eq] at hc
  rcases hc with ((rfl | rfl) | rfl) | rfl <;> decide

theorem ends_append {b : List Char} (hb : ∀ c ∈ b, isSpace c = true) {cs : List Char}
    (hcs : Ends cs) : Ends (b ++ cs) := by
  cases b with
  | nil => exact hcs
  | cons c b => exact ends_of_isSpace (hb c List.mem_cons_self) _

/-- The rest of an array ends a number. -/
theorem ends_laidItems {p : Layout} (hp : p.Sound) (level : Nat) (l : List Json)
    (rest : List Char) : Ends (laidItems p level l ++ rest) := by
  cases l with
  | nil =>
      rw [laidItems, List.append_assoc]
      exact ends_append (hp.after level) (ends_cons (by decide))
  | cons j l =>
      rw [laidItems]
      exact ends_cons (by decide)

/-- The rest of an object ends a number. -/
theorem ends_laidMembers {p : Layout} (hp : p.Sound) (level : Nat) (ms : List (String × Json))
    (rest : List Char) : Ends (laidMembers p level ms ++ rest) := by
  cases ms with
  | nil =>
      rw [laidMembers, List.append_assoc]
      exact ends_append (hp.after level) (ends_cons (by decide))
  | cons m ms =>
      rw [laidMembers]
      exact ends_cons (by decide)

/-- Blanks in front of a value are skipped. -/
theorem readValue_skip (fuel : Nat) {b : List Char} (hb : ∀ c ∈ b, isSpace c = true)
    (cs : List Char) : readValue fuel (b ++ cs) = readValue fuel cs := by
  cases fuel with
  | zero => rfl
  | succ fuel => rw [readValue, readValue, skip_append hb]

theorem readItems_skip (fuel : Nat) {b : List Char} (hb : ∀ c ∈ b, isSpace c = true)
    (cs : List Char) : readItems fuel (b ++ cs) = readItems fuel cs := by
  cases fuel with
  | zero => rfl
  | succ fuel => rw [readItems, readItems, readValue_skip fuel hb]

theorem readMembers_skip (fuel : Nat) {b : List Char} (hb : ∀ c ∈ b, isSpace c = true)
    (cs : List Char) : readMembers fuel (b ++ cs) = readMembers fuel cs := by
  cases fuel with
  | zero => rfl
  | succ fuel => rw [readMembers, readMembers, skip_append hb]

end Blanks

section Reading

variable {p : Layout} (hp : p.Sound)
include hp

/-- Reading items goes on when reading the first one and the others does. -/
theorem readItems_cons {fuel level : Nat} {j : Json} {l : List Json} {rest : List Char}
    (hj : ∀ rest, Ends rest → readValue fuel (laid p (level + 1) j ++ rest) = .ok (j, rest))
    (hl : ∀ j' l', l = j' :: l' → readItems fuel (p.before level ++ laid p (level + 1) j'
      ++ laidItems p level l' ++ rest) = .ok (l, rest)) :
    readItems (fuel + 1) (p.before level ++ laid p (level + 1) j ++ laidItems p level l ++ rest) =
      .ok (j :: l, rest) := by
  rw [readItems, List.append_assoc, List.append_assoc, readValue_skip fuel (hp.before level),
    hj _ (ends_laidItems hp level l rest)]
  simp only [bind, Except.bind]
  cases l with
  | nil =>
      rw [laidItems, List.append_assoc, skip_append (hp.after level), List.singleton_append,
        skip_cons (by decide)]
      rfl
  | cons j' l' =>
      rw [laidItems, List.cons_append, skip_cons (by decide)]
      simp only [hl j' l' rfl]
      rfl

/-- Reading members goes on when reading the first one and the others does. -/
theorem readMembers_cons {fuel level : Nat} {name : String} {j : Json}
    {ms : List (String × Json)} {rest : List Char}
    (hj : ∀ rest, Ends rest → readValue fuel (laid p (level + 1) j ++ rest) = .ok (j, rest))
    (hms : ∀ name' j' ms', ms = (name', j') :: ms' →
      readMembers fuel (p.before level ++ laidText p.markup name' ++ ':' :: (p.colon
        ++ laid p (level + 1) j' ++ laidMembers p level ms') ++ rest) = .ok (ms, rest)) :
    readMembers (fuel + 1) (p.before level ++ laidText p.markup name ++ ':' :: (p.colon
        ++ laid p (level + 1) j ++ laidMembers p level ms) ++ rest) =
      .ok ((name, j) :: ms, rest) := by
  have hcolon := hj _ (ends_laidMembers hp level ms rest)
  rw [List.append_assoc, List.append_assoc, readMembers_skip (fuel + 1) (hp.before level),
    laidText, List.cons_append, readMembers, skip_cons (by decide)]
  simp only [List.append_assoc, List.cons_append, List.nil_append, readText_quoted, bind,
    Except.bind]
  rw [skip_cons (by decide)]
  simp only [readValue_skip fuel hp.colon, hcolon]
  cases ms with
  | nil =>
      rw [laidMembers, List.append_assoc, skip_append (hp.after level), List.singleton_append,
        skip_cons (by decide)]
      rfl
  | cons m ms' =>
      obtain ⟨name', j'⟩ := m
      have hrest := hms name' j' ms' rfl
      rw [laidMembers, List.cons_append, skip_cons (by decide)]
      simp only [hrest]
      rfl

omit hp in
/-- What starts like a number is read as one. -/
theorem readValue_number {c : Char} {cs rest : List Char} {j : Json} {fuel : Nat}
    (hc : c = '-' ∨ c.isDigit = true) (hread : readNumber (c :: cs) = .ok (j, rest)) :
    readValue (fuel + 1) (c :: cs) = .ok (j, rest) := by
  have hne : ∀ d : Char, d ≠ '-' → d.isDigit = false → c ≠ d := by
    intro d hminus hdigit
    rcases hc with rfl | hc
    · exact Ne.symm hminus
    · exact ne_of_isDigit hc hdigit
  have hspace : isSpace c = false := by
    simp [isSpace, hne ' ' (by decide) (by decide), hne '\t' (by decide) (by decide),
      hne '\n' (by decide) (by decide), hne '\r' (by decide) (by decide)]
  have hnumber : (c = '-' || c.isDigit) = true := by simpa using hc
  rw [readValue, skip_cons hspace]
  simp only [if_neg (hne '"' (by decide) (by decide)), if_neg (hne '[' (by decide) (by decide)),
    if_neg (hne '\x7b' (by decide) (by decide)), if_neg (hne 't' (by decide) (by decide)),
    if_neg (hne 'f' (by decide) (by decide)), if_neg (hne 'n' (by decide) (by decide)),
    if_pos hnumber, hread]

/-- An array with items is read when its items are. -/
theorem readValue_items {level fuel : Nat} {j : Json} {l : List Json} {rest : List Char}
    (hj : Exact j)
    (hitems : readItems fuel (p.before level ++ laid p (level + 1) j ++ laidItems p level l ++ rest) =
      .ok (j :: l, rest)) :
    readValue (fuel + 1) ('[' :: (p.before level ++ laid p (level + 1) j ++ laidItems p level l
      ++ rest)) = .ok (.arr (j :: l), rest) := by
  obtain ⟨c, cs, hcs, hspace, hclose⟩ := head_laid p (level + 1) hj
  rw [List.append_assoc, List.append_assoc, readItems_skip fuel (hp.before level), hcs,
    List.cons_append] at hitems
  rw [List.append_assoc, List.append_assoc, hcs, readValue, skip_cons (by decide)]
  simp only [if_neg (show ¬ '[' = '"' by decide), if_true, skip_append (hp.before level),
    List.cons_append, skip_cons hspace]
  split
  · next heq => exact absurd (List.cons.inj heq).1 hclose
  · simp only [hitems, bind, Except.bind]
    rfl

/-- An object with members is read when its members are. -/
theorem readValue_members {level fuel : Nat} {name : String} {j : Json}
    {ms : List (String × Json)} {rest : List Char}
    (hmembers : readMembers fuel (p.before level ++ laidText p.markup name ++ ':' :: (p.colon
      ++ laid p (level + 1) j ++ laidMembers p level ms) ++ rest) = .ok ((name, j) :: ms, rest)) :
    readValue (fuel + 1) ('\x7b' :: (p.before level ++ laidText p.markup name ++ ':' :: (p.colon
      ++ laid p (level + 1) j ++ laidMembers p level ms) ++ rest)) =
      .ok (.obj ((name, j) :: ms), rest) := by
  rw [List.append_assoc, List.append_assoc, readMembers_skip fuel (hp.before level), laidText,
    List.cons_append] at hmembers
  rw [List.append_assoc, List.append_assoc, readValue, skip_cons (by decide)]
  simp only [if_neg (show ¬ '\x7b' = '"' by decide), if_neg (show ¬ '\x7b' = '[' by decide),
    if_true, skip_append (hp.before level), laidText]
  rw [List.cons_append, skip_cons (by decide)]
  split
  · next heq => exact absurd (List.cons.inj heq).1 (by decide)
  · simp only [hmembers, bind, Except.bind]
    rfl

mutual

/-- A value is read back from its layout. -/
theorem readValue_laid : ∀ (j : Json) (level fuel : Nat) (rest : List Char),
    Exact j → steps j ≤ fuel → Ends rest → readValue fuel (laid p level j ++ rest) = .ok (j, rest)
  | j, _, 0, _, _, hfuel, _ => by
      exfalso
      have hpos : 0 < steps j := by
        cases j with
        | arr l => cases l <;> simp [steps]
        | obj ms => cases ms <;> simp [steps]
        | _ => simp [steps]
      omega
  | .null, _, fuel + 1, rest, _, _, _ => by
      rw [laid, List.cons_append, readValue, skip_cons (by decide)]
      rfl
  | .bool b, _, fuel + 1, rest, _, _, _ => by
      cases b
      · rw [laid, if_neg (by decide), List.cons_append, readValue, skip_cons (by decide)]
        rfl
      · rw [laid, if_pos rfl, List.cons_append, readValue, skip_cons (by decide)]
        rfl
  | .num t, _, fuel + 1, rest, hj, _, hrest => by
      obtain ⟨n, rfl⟩ := hj
      have hread := readNumber_toString n hrest
      obtain ⟨c, cs, hcs, hc⟩ := head_toString n
      rw [hcs, List.cons_append] at hread
      rw [laid, hcs, List.cons_append]
      exact readValue_number hc hread
  | .str s, _, fuel + 1, rest, _, _, _ => by
      rw [laid, laidText, List.cons_append, readValue, skip_cons (by decide)]
      simp only [List.append_assoc, List.singleton_append, if_true, readText_quoted, bind,
        Except.bind]
      rfl
  | .arr [], _, fuel + 1, rest, _, _, _ => by
      rw [laid, List.cons_append, readValue, skip_cons (by decide)]
      rfl
  | .arr (j :: l), level, fuel + 1, rest, hj, hfuel, _ => by
      rw [Exact, ExactItems] at hj
      rw [steps] at hfuel
      have hitems := readItems_laid j l level fuel rest hj.1 hj.2 (by omega)
      rw [laid, List.cons_append]
      exact readValue_items hp hj.1 hitems
  | .obj [], _, fuel + 1, rest, _, _, _ => by
      rw [laid, List.cons_append, readValue, skip_cons (by decide)]
      rfl
  | .obj ((name, j) :: ms), level, fuel + 1, rest, hj, hfuel, _ => by
      rw [Exact, ExactMembers] at hj
      rw [steps] at hfuel
      have hmembers := readMembers_laid name j ms level fuel rest hj.1 hj.2 (by omega)
      rw [laid, List.cons_append]
      exact readValue_members hp hmembers

/-- Items are read back from their layout. -/
theorem readItems_laid : ∀ (j : Json) (l : List Json) (level fuel : Nat) (rest : List Char),
    Exact j → ExactItems l → steps j + stepsOfItems l < fuel →
    readItems fuel (p.before level ++ laid p (level + 1) j ++ laidItems p level l ++ rest) =
      .ok (j :: l, rest)
  | j, [], level, fuel + 1, rest, hj, _, hfuel =>
      readItems_cons hp (fun rest hrest => readValue_laid j (level + 1) fuel rest hj
        (by simp only [stepsOfItems] at hfuel; omega) hrest) (by simp)
  | j, j' :: l', level, fuel + 1, rest, hj, hl, hfuel => by
      rw [ExactItems] at hl
      rw [stepsOfItems] at hfuel
      refine readItems_cons hp (fun rest hrest => readValue_laid j (level + 1) fuel rest hj
        (by omega) hrest) ?_
      intro j'' l'' heq
      obtain ⟨rfl, rfl⟩ := List.cons.inj heq
      exact readItems_laid j' l' level fuel rest hl.1 hl.2 (by omega)

/-- Members are read back from their layout. -/
theorem readMembers_laid : ∀ (name : String) (j : Json) (ms : List (String × Json))
    (level fuel : Nat) (rest : List Char),
    Exact j → ExactMembers ms → steps j + stepsOfMembers ms < fuel →
    readMembers fuel (p.before level ++ laidText p.markup name ++ ':' :: (p.colon
      ++ laid p (level + 1) j ++ laidMembers p level ms) ++ rest) = .ok ((name, j) :: ms, rest)
  | name, j, [], level, fuel + 1, rest, hj, _, hfuel =>
      readMembers_cons hp (fun rest hrest => readValue_laid j (level + 1) fuel rest hj
        (by simp only [stepsOfMembers] at hfuel; omega) hrest) (by simp)
  | name, j, (name', j') :: ms', level, fuel + 1, rest, hj, hms, hfuel => by
      rw [ExactMembers] at hms
      rw [stepsOfMembers] at hfuel
      refine readMembers_cons hp (fun rest hrest => readValue_laid j (level + 1) fuel rest hj
        (by omega) hrest) ?_
      intro name'' j'' ms'' heq
      obtain ⟨hhead, rfl⟩ := List.cons.inj heq
      obtain ⟨rfl, rfl⟩ := Prod.mk.inj hhead
      exact readMembers_laid name' j' ms' level fuel rest hms.1 hms.2 (by omega)

end

end Reading

section Steps

variable (p : Layout)

theorem laidItems_ne_nil (level : Nat) (l : List Json) : 0 < (laidItems p level l).length := by
  cases l <;> simp [laidItems]

theorem laidMembers_ne_nil (level : Nat) (ms : List (String × Json)) :
    0 < (laidMembers p level ms).length := by
  cases ms <;> simp [laidMembers]

mutual

/-- Reading a value takes at most two steps for each of its characters. -/
theorem steps_le : ∀ (j : Json) (level : Nat), Exact j → steps j ≤ 2 * (laid p level j).length
  | .null, _, _ => by simp [steps, laid]
  | .bool b, _, _ => by cases b <;> simp [steps, laid]
  | .num t, _, hj => by
      obtain ⟨n, rfl⟩ := hj
      obtain ⟨c, cs, hcs, -⟩ := head_toString n
      simp only [steps, laid, hcs, List.length_cons]
      omega
  | .str s, _, _ => by
      simp only [steps, laid, laidText, List.length_cons]
      omega
  | .arr [], _, _ => by simp [steps, laid]
  | .arr (j :: l), level, hj => by
      rw [Exact, ExactItems] at hj
      have hhead := steps_le j (level + 1) hj.1
      have htail := stepsOfItems_le l level hj.2
      simp only [steps, laid, List.length_cons, List.length_append]
      omega
  | .obj [], _, _ => by simp [steps, laid]
  | .obj ((name, j) :: ms), level, hj => by
      rw [Exact, ExactMembers] at hj
      have hhead := steps_le j (level + 1) hj.1
      have htail := stepsOfMembers_le ms level hj.2
      simp only [steps, laid, List.length_cons, List.length_append]
      omega

/-- The text of an array is long enough for the steps its reading takes. -/
theorem stepsOfItems_le : ∀ (l : List Json) (level : Nat), ExactItems l →
    stepsOfItems l + 2 ≤ 2 * (laidItems p level l).length
  | [], level, _ => by
      have := laidItems_ne_nil p level []
      rw [stepsOfItems]
      omega
  | j :: l, level, hl => by
      rw [ExactItems] at hl
      have hhead := steps_le j (level + 1) hl.1
      have htail := stepsOfItems_le l level hl.2
      simp only [stepsOfItems, laidItems, List.length_cons, List.length_append]
      omega

/-- The text of an object is long enough as well. -/
theorem stepsOfMembers_le : ∀ (ms : List (String × Json)) (level : Nat), ExactMembers ms →
    stepsOfMembers ms + 2 ≤ 2 * (laidMembers p level ms).length
  | [], level, _ => by
      have := laidMembers_ne_nil p level []
      rw [stepsOfMembers]
      omega
  | (name, j) :: ms, level, hms => by
      rw [ExactMembers] at hms
      have hhead := steps_le j (level + 1) hms.1
      have htail := stepsOfMembers_le ms level hms.2
      simp only [stepsOfMembers, laidMembers, List.length_cons, List.length_append]
      omega

end

variable {p}

/-- A laid out value is read back, with blanks behind it. -/
theorem parse_laid (hp : p.Sound) {j : Json} (hj : Exact j) (level : Nat) {blanks : List Char}
    (hblanks : ∀ c ∈ blanks, isSpace c = true) : parse (laid p level j ++ blanks) = .ok j := by
  have hsteps := steps_le p j level hj
  have hends : Ends blanks := by
    have := ends_append hblanks ends_nil
    rwa [List.append_nil] at this
  have hskip : skip blanks = [] := by
    have := skip_append hblanks []
    rwa [List.append_nil] at this
  unfold parse
  rw [readValue_laid hp j level _ blanks hj (by rw [List.length_append]; omega) hends]
  simp only [bind, Except.bind, hskip]
  rfl

end Steps

section OneLine

/-- Everything on one line, without blanks. -/
def oneLine (markup : Bool) : Layout where
  before _ := []
  after _ := []
  colon := []
  markup := markup

theorem oneLine_sound (markup : Bool) : (oneLine markup).Sound := by
  constructor <;> simp [oneLine]

variable (markup : Bool)

mutual

/-- The compact form is the layout on one line. -/
theorem toList_compact : ∀ (j : Json) (level : Nat),
    (compact markup j).toList = laid (oneLine markup) level j
  | .null, _ => by rw [compact, laid]; rfl
  | .bool b, _ => by cases b <;> rw [compact, laid] <;> rfl
  | .num t, _ => by rw [compact, laid]
  | .str s, _ => by rw [compact, laid, toList_quoted]; rfl
  | .arr [], _ => by rw [compact, laid, compactItems]; rfl
  | .arr (j :: l), level => by
      have hj := toList_compact j (level + 1)
      have hl := toList_compactItems l level (compact markup j)
      rw [compact, compactItems, laid, String.append_assoc, String.toList_append, hl, hj]
      rfl
  | .obj [], _ => by rw [compact, laid, compactMembers]; rfl
  | .obj ((name, j) :: ms), level => by
      have hj := toList_compact j (level + 1)
      have hms := toList_compactMembers ms level (quoted markup name ++ ":" ++ compact markup j)
      rw [compact, compactMembers, laid, String.append_assoc, String.toList_append, hms,
        String.toList_append, String.toList_append, toList_quoted, hj]
      simp [oneLine, laidText]

theorem toList_compactItems : ∀ (l : List Json) (level : Nat) (first : String),
    (",".intercalate (first :: compactItems markup l) ++ "]").toList =
      first.toList ++ laidItems (oneLine markup) level l
  | [], level, first => by
      rw [compactItems, String.intercalate_singleton, String.toList_append, laidItems]
      rfl
  | j :: l, level, first => by
      have hj := toList_compact j (level + 1)
      have hl := toList_compactItems l level (compact markup j)
      rw [compactItems, String.intercalate_cons_cons, String.append_assoc, String.toList_append, hl,
        String.toList_append, hj, laidItems, List.append_assoc]
      rfl

theorem toList_compactMembers : ∀ (ms : List (String × Json)) (level : Nat) (first : String),
    (",".intercalate (first :: compactMembers markup ms) ++ "\x7d").toList =
      first.toList ++ laidMembers (oneLine markup) level ms
  | [], level, first => by
      rw [compactMembers, String.intercalate_singleton, String.toList_append, laidMembers]
      rfl
  | (name, j) :: ms, level, first => by
      have hj := toList_compact j (level + 1)
      have hms := toList_compactMembers ms level (quoted markup name ++ ":" ++ compact markup j)
      rw [compactMembers, String.intercalate_cons_cons, String.append_assoc, String.toList_append,
        hms, String.toList_append, String.toList_append, String.toList_append, toList_quoted, hj,
        laidMembers]
      simp [oneLine, laidText]

end

/-- A value on one line is read back. -/
theorem parse_compact {j : Json} (hj : Exact j) : parse (compact markup j).toList = .ok j := by
  have : parse (laid (oneLine markup) 0 j ++ []) = .ok j :=
    parse_laid (oneLine_sound markup) hj 0 (by simp)
  rwa [List.append_nil, ← toList_compact markup j 0] at this

/-- What is written in compact form is read back. -/
theorem parseBytes_compact {j : Json} (hj : Exact j) :
    parseBytes (Bytes.ofString (compact markup j)) = .ok j := by
  rw [parseBytes, Bytes.toText_ofString, parse_compact markup hj]

end OneLine

section Lines

/-- The blanks in front of a line. -/
def lineStart (level : Nat) : List Char := '\n' :: (pad level).toList

/-- One item on a line. -/
def onLines : Layout where
  before level := lineStart (level + 1)
  after level := lineStart level
  colon := [' ']
  markup := true

theorem isSpace_of_mem_lineStart {level : Nat} {c : Char} (h : c ∈ lineStart level) :
    isSpace c = true := by
  rcases List.mem_cons.mp h with rfl | h
  · decide
  · rw [pad, String.toList_ofList] at h
    rw [List.eq_of_mem_replicate h]
    decide

theorem onLines_sound : onLines.Sound where
  before _ _ h := isSpace_of_mem_lineStart h
  after _ _ h := isSpace_of_mem_lineStart h
  colon c h := by
    rw [List.mem_singleton.mp h]
    decide

theorem toList_block (level : Nat) (opening closing first : String) (items : List String) :
    (block level opening closing (first :: items)).toList =
      opening.toList ++ '\n' :: (",\n".intercalate ((pad (level + 1) ++ first) ::
        items.map (pad (level + 1) ++ ·)) ++ "\n" ++ pad level ++ closing).toList := by
  simp [block]

mutual

/-- The indented form is the layout on lines. -/
theorem toList_indented : ∀ (j : Json) (level : Nat), (indented level j).toList = laid onLines level j
  | .null, _ => by rw [indented, laid]; rfl
  | .bool b, _ => by cases b <;> rw [indented, laid] <;> rfl
  | .num t, _ => by rw [indented, laid]
  | .str s, _ => by rw [indented, laid, toList_quoted]; rfl
  | .arr [], _ => by rw [indented, laid, indentedItems, block]; rfl
  | .arr (j :: l), level => by
      have hj := toList_indented j (level + 1)
      have hl := toList_indentedItems l level (pad (level + 1) ++ indented (level + 1) j)
      rw [indented, indentedItems, laid, toList_block, hl, String.toList_append, hj]
      simp [onLines, lineStart]
  | .obj [], _ => by rw [indented, laid, indentedMembers, block]; rfl
  | .obj ((name, j) :: ms), level => by
      have hj := toList_indented j (level + 1)
      have hms := toList_indentedMembers ms level
        (pad (level + 1) ++ (quoted true name ++ ": " ++ indented (level + 1) j))
      rw [indented, indentedMembers, laid, toList_block, hms, String.toList_append,
        String.toList_append, String.toList_append, toList_quoted, hj]
      simp [onLines, lineStart, laidText]

theorem toList_indentedItems : ∀ (l : List Json) (level : Nat) (first : String),
    (",\n".intercalate (first :: (indentedItems (level + 1) l).map (pad (level + 1) ++ ·)) ++ "\n"
      ++ pad level ++ "]").toList = first.toList ++ laidItems onLines level l
  | [], level, first => by
      rw [indentedItems, List.map_nil, String.intercalate_singleton, laidItems]
      simp [onLines, lineStart]
  | j :: l, level, first => by
      have hj := toList_indented j (level + 1)
      have hl := toList_indentedItems l level (pad (level + 1) ++ indented (level + 1) j)
      rw [indentedItems, List.map_cons, String.intercalate_cons_cons, laidItems]
      simp only [String.toList_append, List.append_assoc] at hl ⊢
      rw [hl, hj]
      simp [onLines, lineStart]

theorem toList_indentedMembers : ∀ (ms : List (String × Json)) (level : Nat) (first : String),
    (",\n".intercalate (first :: (indentedMembers (level + 1) ms).map (pad (level + 1) ++ ·))
      ++ "\n" ++ pad level ++ "\x7d").toList = first.toList ++ laidMembers onLines level ms
  | [], level, first => by
      rw [indentedMembers, List.map_nil, String.intercalate_singleton, laidMembers]
      simp [onLines, lineStart]
  | (name, j) :: ms, level, first => by
      have hj := toList_indented j (level + 1)
      have hms := toList_indentedMembers ms level
        (pad (level + 1) ++ (quoted true name ++ ": " ++ indented (level + 1) j))
      rw [indentedMembers, List.map_cons, String.intercalate_cons_cons, laidMembers]
      simp only [String.toList_append, List.append_assoc] at hms ⊢
      rw [hms, hj, toList_quoted]
      simp [onLines, lineStart, laidText]

end

/-- A value with one item on a line is read back. -/
theorem parseBytes_indented {j : Json} (hj : Exact j) (level : Nat) :
    parseBytes (Bytes.ofString (indented level j)) = .ok j := by
  have : parse (laid onLines level j ++ []) = .ok j := parse_laid onLines_sound hj level (by simp)
  rwa [List.append_nil, ← toList_indented j level, ← Bytes.toText_ofString (indented level j)]
    at this

/-- A whole file is read back. -/
theorem parseBytes_document {j : Json} (hj : Exact j) :
    parseBytes (Bytes.ofString (document j)) = .ok j := by
  have : parse (laid onLines 0 j ++ ['\n']) = .ok j :=
    parse_laid onLines_sound hj 0 (by simp [isSpace])
  rw [parseBytes, Bytes.toText_ofString, document, String.toList_append, toList_indented]
  exact this

end Lines

end Json
end InstallerLint
