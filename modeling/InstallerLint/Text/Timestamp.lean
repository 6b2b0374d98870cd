import InstallerLint.Text.Bytes

/-!
# Times in words

A time is a number of seconds since the start of 1970.  Days are counted from the start of a
March, so that a leap day is the last day of its year.
-/

namespace InstallerLint
namespace Timestamp

/-- A day of the calendar. -/
structure Day where
  year : Int
  /-- The month, from one. -/
  month : Int
  /-- The day, from one. -/
  day : Int
  deriving DecidableEq, Repr

/-- The days from the first of March of the year 0 to the start of 1970. -/
def epochDays : Int := 719468

/-- The day of a number of days since the start of 1970. -/
def Day.ofDays (days : Int) : Day :=
  let z := days + epochDays
  let era := z.fdiv 146097
  let inEra := z - era * 146097
  let yearOfEra := (inEra - inEra / 1460 + inEra / 36524 - inEra / 146096) / 365
  let dayOfYear := inEra - (365 * yearOfEra + yearOfEra / 4 - yearOfEra / 100)
  let shifted := (5 * dayOfYear + 2) / 153
  let day := dayOfYear - (153 * shifted + 2) / 5 + 1
  let month := if shifted < 10 then shifted + 3 else shifted - 9
  ⟨yearOfEra + era * 400 + (if month ≤ 2 then 1 else 0), month, day⟩

/-- A number with at least `width` digits. -/
def padded (width : Nat) (n : Int) : String :=
  let ds := toString n
  String.ofList (List.replicate (width - ds.length) '0') ++ ds

/-- A time as date, time of day and the mark of universal time. -/
def text (seconds : Int) : String :=
  let d := Day.ofDays (seconds.fdiv 86400)
  let t := seconds.fmod 86400
  padded 4 d.year ++ "-" ++ padded 2 d.month ++ "-" ++ padded 2 d.day ++ "T"
    ++ padded 2 (t / 3600) ++ ":" ++ padded 2 (t / 60 % 60) ++ ":" ++ padded 2 (t % 60) ++ "Z"

end Timestamp
end InstallerLint
