import Mathlib.Data.Int.Basic

/-!
Calendar time in UTC, as `gmtime_r` splits it up.
-/
namespace IoEdgeHub.Clock

structure Tm where
  tm_year : Int
  tm_mon : Nat
  tm_mday : Nat
  tm_hour : Nat
  tm_min : Nat
  tm_sec : Nat
deriving DecidableEq, Repr

/-- The date of a day, counted from 1970-01-01: the year, the month from 1 on and the day
    of the month. Years begin in March here, so that the leap day is the last one. -/
def civil_date (day : Int) : Int × Nat × Nat :=
  let era := (day + 719468) / 146097
  let doe := ((day + 719468) % 146097).toNat
  let yoe := (doe - doe / 1460 + doe / 36524 - doe / 146096) / 365
  let doy := doe - (365 * yoe + yoe / 4 - yoe / 100)
  let mp := (5 * doy + 2) / 153
  let mon := if mp < 10 then mp + 3 else mp - 9
  (yoe + era * 400 + (if mon ≤ 2 then 1 else 0), mon, doy - (153 * mp + 2) / 5 + 1)

/-- No time is returned for a year that `int` does not hold. -/
def gmtime_r (t : Int) : Option Tm :=
  let date := civil_date (t / 86400)
  let second := (t % 86400).toNat
  let tm_year := date.1 - 1900
  if -2147483648 ≤ tm_year ∧ tm_year ≤ 2147483647 then
    some { tm_year, tm_mon := date.2.1 - 1, tm_mday := date.2.2, tm_hour := second / 3600,
           tm_min := second / 60 % 60, tm_sec := second % 60 }
  else none

example : gmtime_r 951825599 = some ⟨100, 1, 29, 11, 59, 59⟩ := by decide

end IoEdgeHub.Clock
