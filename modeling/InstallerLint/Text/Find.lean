/-!
# Searching in texts

Splitting a text around the first place where another one stands.
-/

namespace InstallerLint
namespace Find

/-- What follows `p` at the front. -/
def after? : (p cs : List Char) → Option (List Char)
  | [], cs => some cs
  | _ :: _, [] => none
  | a :: p, c :: cs => if a = c then after? p cs else none

/-- What stands before and behind the first `p`. -/
def cut? (p : List Char) : List Char → Option (List Char × List Char)
  | [] => (after? p []).map fun rest => ([], rest)
  | c :: cs =>
    match after? p (c :: cs) with
    | some rest => some ([], rest)
    | none => (cut? p cs).map fun (before, rest) => (c :: before, rest)

theorem length_of_after? : ∀ {p cs rest : List Char}, after? p cs = some rest →
    cs.length = p.length + rest.length
  | [], cs, rest, h => by
    simp only [after?, Option.some.injEq] at h
    simp [h]
  | _ :: _, [], _, h => by simp [after?] at h
  | a :: p, c :: cs, rest, h => by
    by_cases hac : a = c
    · simp only [after?, hac, if_true] at h
      have := length_of_after? h
      simp only [List.length_cons]
      omega
    · simp [after?, hac] at h

theorem length_of_cut? {p : List Char} : ∀ {cs a b : List Char}, cut? p cs = some (a, b) →
    cs.length = a.length + p.length + b.length
  | [], a, b, h => by
    simp only [cut?, Option.map_eq_some_iff, Prod.mk.injEq] at h
    obtain ⟨rest, hrest, rfl, rfl⟩ := h
    simpa using length_of_after? hrest
  | c :: cs, a, b, h => by
    simp only [cut?] at h
    split at h
    · rename_i rest hrest
      simp only [Option.some.injEq, Prod.mk.injEq] at h
      obtain ⟨rfl, rfl⟩ := h
      simpa using length_of_after? hrest
    · simp only [Option.map_eq_some_iff, Prod.mk.injEq] at h
      obtain ⟨⟨before, rest⟩, hcut, rfl, rfl⟩ := h
      have := length_of_cut? hcut
      simp only [List.length_cons]
      omega

/-- Whether `part` stands somewhere in `whole`. -/
def isIn (part whole : String) : Bool := (cut? part.toList whole.toList).isSome

/-- Whether a text starts with another. -/
def startsWith (s part : String) : Bool := part.toList.isPrefixOf s.toList

/-- Whether a text ends with another. -/
def endsWith (s part : String) : Bool := part.toList.isSuffixOf s.toList

/-- A text without what it starts with. -/
def stripFront? (s part : String) : Option String := (after? part.toList s.toList).map String.ofList

/-- A text without what it starts with, if it does. -/
def stripFront (s part : String) : String := (stripFront? s part).getD s

/-- A text without what it ends with, if it does. -/
def stripBack (s part : String) : String :=
  match after? part.toList.reverse s.toList.reverse with
  | some rest => String.ofList rest.reverse
  | none => s

/-- Splits a text around the first place of another. -/
def cutText? (s part : String) : Option (String × String) :=
  (cut? part.toList s.toList).map fun (a, b) => (String.ofList a, String.ofList b)

/-- Replaces every place of `old`, from left to right. -/
def replaceFrom (old new : List Char) : (fuel : Nat) → List Char → List Char
  | 0, cs => cs
  | fuel + 1, cs =>
    match cut? old cs with
    | some (before, rest) => before ++ new ++ replaceFrom old new fuel rest
    | none => cs

/-- Replaces every place of a text that is not empty. -/
def replaceAll (s old new : String) : String :=
  String.ofList (replaceFrom old.toList new.toList s.length s.toList)

/-- The pieces of a text between commas or another character. -/
def pieces (c : Char) (s : String) : List String := (s.toList.splitOn c).map String.ofList

end Find
end InstallerLint
