/-!
# Slash-separated paths

Paths are texts.  `clean` gives the shortest path with the same meaning, read without looking
at a disk: empty and `.` parts go, and `..` takes away the part before it.
-/

namespace InstallerLint
namespace Path

/-- The parts between slashes. -/
def parts (p : String) : List String := (p.toList.splitOn '/').map String.ofList

/-- Whether the path starts at the root. -/
def isAbs (p : String) : Bool := p.toList.head? == some '/'

/-- Adds one part to the reversed parts of a path. -/
def push (rooted : Bool) (done : List String) (part : String) : List String :=
  if part = "" || part = "." then done
  else if part = ".." then
    match done with
    | [] => if rooted then [] else [".."]
    | last :: rest => if last = ".." then ".." :: done else rest
  else part :: done

/-- The parts that remain after reading `.` and `..`. -/
def cleanParts (p : String) : List String :=
  ((parts p).foldl (push (isAbs p)) []).reverse

/-- Writes parts as a path. -/
def ofParts (rooted : Bool) (ps : List String) : String :=
  match rooted, ps with
  | true, ps => "/" ++ "/".intercalate ps
  | false, [] => "."
  | false, ps => "/".intercalate ps

/-- The shortest path with the same meaning. -/
def clean (p : String) : String := ofParts (isAbs p) (cleanParts p)

/-- Joins paths; empty ones do not count. -/
def join (ps : List String) : String :=
  match ps.filter (· ≠ "") with
  | [] => ""
  | ps => clean ("/".intercalate ps)

/-- A path read from a directory. -/
def resolve (dir p : String) : String := if isAbs p then clean p else join [dir, p]

/-- Takes away what two lists have in common at their start. -/
def dropCommon : (base target : List String) → List String × List String
  | b :: base, t :: target => if b = t then dropCommon base target else (b :: base, t :: target)
  | base, target => (base, target)

/-- The parts of a path for `relative`; the current directory has none as a base. -/
def baseParts (p : String) : List String := cleanParts p

/-- How to reach `target` from `base`; `none` when that cannot be said without a disk. -/
def relative? (base target : String) : Option String :=
  if clean base = clean target then some "."
  else if isAbs base ≠ isAbs target then none
  else
    let targetParts := if clean target = "." then ["."] else cleanParts target
    match dropCommon (baseParts base) targetParts with
    | (".." :: _, _) => none
    | (up, down) => some ("/".intercalate (up.map (fun _ => "..") ++ down))

/-- The last part of a path. -/
def base (p : String) : String :=
  if p = "" then "."
  else
    match (parts p).reverse.dropWhile (· = "") with
    | [] => "/"
    | last :: _ => last

/-- Everything before the last part. -/
def dir (p : String) : String :=
  match (parts p).reverse with
  | [] => "."
  | _ :: front =>
    let rest := "/".intercalate front.reverse
    clean (if front.isEmpty then "" else rest ++ "/")

/-- The ending of the last part from its last dot on; empty when it has none. -/
def ext (p : String) : String :=
  let last := (p.toList.reverse.takeWhile (· ≠ '/')).reverse
  match last.reverse.span (· ≠ '.') with
  | (_, []) => ""
  | (tail, _ :: _) => String.ofList ('.' :: tail.reverse)

end Path
end InstallerLint
