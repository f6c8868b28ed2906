import Restyle.Text.Utf8

/-!
# Time stamps

A moment is counted in milliseconds since the start of 1970, and written as date and time of day in
universal time.
-/

namespace Restyle.Time

structure Date where
  year : Nat
  month : Nat
  day : Nat
  deriving Repr, DecidableEq

/-- The date so many days after the start of 1970.  Years are taken to begin in March, so that a leap day
is the last day of its year, and come in cycles of 400. -/
def dateOf (days : Nat) : Date :=
  let days := days + 719468
  let cycle := days / 146097
  let inCycle := days % 146097
  let year := (inCycle - inCycle / 1460 + inCycle / 36524 - inCycle / 146096) / 365
  let inYear := inCycle - (365 * year + year / 4 - year / 100)
  let month := (5 * inYear + 2) / 153
  { year := cycle * 400 + year + (if month < 10 then 0 else 1)
    month := if month < 10 then month + 3 else month - 9
    day := inYear - (153 * month + 2) / 5 + 1 }

/-- A number of at least so many digits. -/
def padded (width n : Nat) : Bytes :=
  let digits := decimal n
  List.replicate (width - digits.length) 0x30 ++ digits

/-- Date and time of day. -/
def stamp (millis : Nat) : Bytes :=
  let seconds := millis / 1000
  let date := dateOf (seconds / 86400)
  padded 4 date.year ++ "-" ++ padded 2 date.month ++ "-" ++ padded 2 date.day ++ "T"
    ++ padded 2 (seconds / 3600 % 24) ++ ":" ++ padded 2 (seconds / 60 % 60) ++ ":"
    ++ padded 2 (seconds % 60) ++ "." ++ padded 3 (millis % 1000) ++ "Z"

/-- The epoch, a leap day, and the day after one. -/
example : [dateOf 0, dateOf 11016, dateOf 19783] = [⟨1970, 1, 1⟩, ⟨2000, 2, 29⟩, ⟨2024, 3, 1⟩] := by
  decide

end Restyle.Time
