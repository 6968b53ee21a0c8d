import IoEdgeHub.Clock
import IoEdgeHub.Machine
import IoEdgeHub.Regmap

/-!
The clock (`sys/time.c`): the RTC, which goes on through resets and power cuts, and the
seconds kept in memory, which start from it and are counted by a timer of their own. The
RTC and the library that talks to it are not part of the source; they are a parameter, and
what is promised of them is that what the RTC shows is a calendar, which counts a leap year
every four years. It is compared with seconds through the number of seconds since the year
2000.
-/
namespace IoEdgeHub.RtcClock
open IoEdgeHub.Clock IoEdgeHub.Machine IoEdgeHub.Regmap

/-- The fields of the RTC in binary. They start as after a reset of the backup domain. -/
structure Calendar where
  Year : Nat := 0
  Month : Nat := 1
  Date : Nat := 1
  WeekDay : Nat := 1
  Hours : Nat := 0
  Minutes : Nat := 0
  Seconds : Nat := 0
  deriving DecidableEq

def leap_day (year : Nat) : Nat := if year % 4 = 0 then 1 else 0

def month_days (year : Nat) : Nat → Nat
  | 2 => 28 + leap_day year
  | 4 | 6 | 9 | 11 => 30
  | _ => 31

/-- The days of a year before a month. -/
def month_start (year : Nat) : Nat → Nat
  | 1 => 0
  | 2 => 31
  | 3 => 59 + leap_day year
  | 4 => 90 + leap_day year
  | 5 => 120 + leap_day year
  | 6 => 151 + leap_day year
  | 7 => 181 + leap_day year
  | 8 => 212 + leap_day year
  | 9 => 243 + leap_day year
  | 10 => 273 + leap_day year
  | 11 => 304 + leap_day year
  | _ => 334 + leap_day year

def Calendar.next_day (c : Calendar) : Calendar :=
  let WeekDay := if c.WeekDay = 7 then 1 else c.WeekDay + 1
  if c.Date < month_days c.Year c.Month then { c with WeekDay, Date := c.Date + 1 }
  else if c.Month < 12 then { c with WeekDay, Date := 1, Month := c.Month + 1 }
  else { c with WeekDay, Date := 1, Month := 1, Year := if c.Year < 99 then c.Year + 1 else 0 }

/-- A second passes. -/
def Calendar.tick (c : Calendar) : Calendar :=
  if c.Seconds < 59 then { c with Seconds := c.Seconds + 1 }
  else if c.Minutes < 59 then { c with Seconds := 0, Minutes := c.Minutes + 1 }
  else if c.Hours < 23 then { c with Seconds := 0, Minutes := 0, Hours := c.Hours + 1 }
  else { c with Seconds := 0, Minutes := 0, Hours := 0 }.next_day

/-- The days since the first of January 2000. -/
def Calendar.days (c : Calendar) : Nat :=
  365 * c.Year + (c.Year + 3) / 4 + month_start c.Year c.Month + (c.Date - 1)

def Calendar.seconds (c : Calendar) : Nat := 86400 * c.days + 3600 * c.Hours + 60 * c.Minutes + c.Seconds

/-- The days of a century. -/
def CENTURY : Nat := 36525

/-- A date that there is. -/
structure Calendar.Dated (c : Calendar) : Prop where
  year : c.Year < 100
  month : 1 ≤ c.Month ∧ c.Month ≤ 12
  date : 1 ≤ c.Date ∧ c.Date ≤ month_days c.Year c.Month
  /-- The century began on a Saturday. -/
  weekday : c.WeekDay = (c.days + 5) % 7 + 1

/-- A date and a time that there are. -/
structure Calendar.Valid (c : Calendar) : Prop where
  dated : c.Dated
  hours : c.Hours < 24
  minutes : c.Minutes < 60
  seconds : c.Seconds < 60

section
variable {c : Calendar}

theorem leap_day_le (year : Nat) : leap_day year ≤ 1 := by
  unfold leap_day
  split <;> omega

theorem leap_day_eq (year : Nat) : (year + 1 + 3) / 4 = (year + 3) / 4 + leap_day year := by
  unfold leap_day
  split <;> omega

theorem month_days_pos (year month : Nat) : 28 ≤ month_days year month := by
  unfold month_days
  split <;> omega

/-- The first of a month comes after the last day of the one before. -/
theorem month_start_succ {year month : Nat} (low : 1 ≤ month) (high : month < 12) :
    month_start year (month + 1) = month_start year month + month_days year month := by
  obtain rfl | rfl | rfl | rfl | rfl | rfl | rfl | rfl | rfl | rfl | rfl :
    month = 1 ∨ month = 2 ∨ month = 3 ∨ month = 4 ∨ month = 5 ∨ month = 6 ∨ month = 7 ∨ month = 8 ∨ month = 9 ∨
      month = 10 ∨ month = 11 := by omega
  all_goals simp only [month_start, month_days]
  all_goals omega

theorem next_day_days (dated : c.Dated) (before : c.days + 1 < CENTURY) : c.next_day.days = c.days + 1 := by
  obtain ⟨year, ⟨first, last⟩, ⟨low, high⟩, -⟩ := dated
  simp only [Calendar.next_day]
  split
  · simp only [Calendar.days]
    omega
  · split
    · rename_i full inside
      simp only [Calendar.days, month_start_succ first inside]
      omega
    · -- the last of December
      rename_i full inside
      have december : c.Month = 12 := by omega
      have next := leap_day_eq c.Year
      have early : c.Year < 99 := by
        by_contra late
        have last_year : c.Year = 99 := by omega
        simp only [Calendar.days, december, last_year, month_start, month_days, leap_day, CENTURY] at before full
        omega
      rw [if_pos early]
      simp only [Calendar.days, december, month_start, month_days] at full high ⊢
      omega

theorem next_day_dated (dated : c.Dated) (before : c.days + 1 < CENTURY) : c.next_day.Dated := by
  have counted := next_day_days dated before
  obtain ⟨year, ⟨first, last⟩, ⟨low, high⟩, weekday⟩ := dated
  have turn : c.next_day.WeekDay = (c.next_day.days + 5) % 7 + 1 := by
    have set_ : c.next_day.WeekDay = if c.WeekDay = 7 then 1 else c.WeekDay + 1 := by
      simp only [Calendar.next_day]
      split
      · rfl
      · split <;> rfl
    rw [set_, counted, weekday]
    split <;> omega
  refine { weekday := turn, year := ?_, month := ?_, date := ?_ }
  all_goals simp only [Calendar.next_day]
  all_goals split
  · exact year
  · split
    · exact year
    · simp only
      split <;> omega
  · exact ⟨first, last⟩
  · split
    · rename_i inside
      exact ⟨by simp, inside⟩
    · exact ⟨by simp, by simp⟩
  · rename_i room
    exact ⟨by simp, room⟩
  · split
    · have some_ := month_days_pos c.Year (c.Month + 1)
      exact ⟨Nat.le_refl _, by simp only; omega⟩
    · exact ⟨Nat.le_refl _, by simp [month_days]⟩

/-- The calendar counts seconds as long as the century lasts. -/
theorem tick_seconds (valid : c.Valid) (before : c.seconds + 1 < 86400 * CENTURY) :
    c.tick.Valid ∧ c.tick.seconds = c.seconds + 1 := by
  obtain ⟨dated, hours, minutes, seconds⟩ := valid
  simp only [Calendar.tick]
  split
  · exact ⟨⟨⟨dated.year, dated.month, dated.date, dated.weekday⟩, hours, minutes, by simp only; omega⟩, rfl⟩
  · split
    · refine ⟨⟨⟨dated.year, dated.month, dated.date, dated.weekday⟩, hours, by simp only; omega, by simp⟩, ?_⟩
      simp only [Calendar.seconds, Calendar.days]
      omega
    · split
      · refine ⟨⟨⟨dated.year, dated.month, dated.date, dated.weekday⟩, by simp only; omega, by simp, by simp⟩, ?_⟩
        simp only [Calendar.seconds, Calendar.days]
        omega
      · -- midnight
        have midnight : ({ c with Seconds := 0, Minutes := 0, Hours := 0 } : Calendar).Dated :=
          ⟨dated.year, dated.month, dated.date, dated.weekday⟩
        have inside : ({ c with Seconds := 0, Minutes := 0, Hours := 0 } : Calendar).days + 1 < CENTURY := by
          simp only [Calendar.seconds] at before
          show c.days + 1 < CENTURY
          omega
        have counted := next_day_days midnight inside
        have times : ∀ d : Calendar, d.next_day.Hours = d.Hours ∧ d.next_day.Minutes = d.Minutes ∧ d.next_day.Seconds = d.Seconds := by
          intro d
          simp only [Calendar.next_day]
          split
          · simp
          · split <;> simp
        obtain ⟨same_h, same_m, same_s⟩ := times { c with Seconds := 0, Minutes := 0, Hours := 0 }
        refine ⟨⟨next_day_dated midnight inside, by rw [same_h]; simp, by rw [same_m]; simp, by rw [same_s]; simp⟩, ?_⟩
        simp only [Calendar.seconds, counted, same_h, same_m, same_s]
        show 86400 * (c.days + 1) + 3600 * 0 + 60 * 0 + 0 = 86400 * c.days + 3600 * c.Hours + 60 * c.Minutes + c.Seconds + 1
        omega

end

/-- The years that begin in March, counted from the first of March 2000. -/
theorem march_year {doe yoe : Nat} (early : doe < 36465) (year : yoe = (doe - doe / 1460) / 365) :
    yoe < 100 ∧ 365 * yoe + yoe / 4 ≤ doe ∧ doe ≤ 365 * yoe + yoe / 4 + 365 ∧
      (doe = 365 * yoe + yoe / 4 + 365 → (yoe + 1) % 4 = 0) := by
  have small : yoe < 100 := by omega
  refine ⟨small, by omega, by omega, fun last => ?_⟩
  by_contra common
  have quarter : yoe ≤ 4 * (yoe / 4) + 2 := by omega
  have leap_days : yoe / 4 < doe / 1460 := by omega
  omega

/-- The months of a year that begins in March: a date of the year `year`, or of the one after
    it from January on. -/
theorem march_month {year doy mp : Nat} (last : doy ≤ 365) (leap : doy = 365 → (year + 1) % 4 = 0)
    (month : mp = (5 * doy + 2) / 153) :
    ∃ mon y mday, mon = (if mp < 10 then mp + 3 else mp - 9) ∧ y = (if mon ≤ 2 then year + 1 else year) ∧
      mday = doy - (153 * mp + 2) / 5 + 1 ∧ (1 ≤ mon ∧ mon ≤ 12) ∧ (1 ≤ mday ∧ mday ≤ month_days y mon) ∧
      365 * y + (y + 3) / 4 + month_start y mon + (mday - 1) = 60 + 365 * year + year / 4 + doy := by
  refine ⟨_, _, _, rfl, rfl, rfl, ?_⟩
  have leap_year : (year + 1 + 3) / 4 = year / 4 + 1 := by omega
  have leap_last : leap_day (year + 1) = if (year + 1) % 4 = 0 then 1 else 0 := rfl
  have before : (year + 3) / 4 + leap_day year = year / 4 + 1 := by
    unfold leap_day
    split <;> omega
  obtain rfl | rfl | rfl | rfl | rfl | rfl | rfl | rfl | rfl | rfl | rfl | rfl : mp = 0 ∨ mp = 1 ∨ mp = 2 ∨ mp = 3 ∨
      mp = 4 ∨ mp = 5 ∨ mp = 6 ∨ mp = 7 ∨ mp = 8 ∨ mp = 9 ∨ mp = 10 ∨ mp = 11 := by omega
  case inr.inr.inr.inr.inr.inr.inr.inr.inr.inr.inr =>
    -- February
    simp [month_days, month_start]
    split at leap_last <;> omega
  all_goals simp [month_days, month_start]
  all_goals omega

/-- An era of 400 years begins on the first of March 2000. -/
theorem era_place {day : Int} {doe : Nat} (start : day = doe + 146097 * 5) (inside : doe < 146097) :
    day / 146097 = 5 ∧ (day % 146097).toNat = doe := by
  subst start
  constructor
  · rw [Int.add_mul_ediv_left _ _ (by decide), Int.ediv_eq_zero_of_lt (by omega) (by omega), Int.zero_add]
  · rw [Int.add_mul_emod_self_left, Int.emod_eq_of_lt (by omega) (by omega), Int.toNat_natCast]

theorem march_start (doe : Nat) : (10957 : Int) + ((doe + 60 : Nat) : Int) + 719468 = doe + 146097 * 5 := by
  omega

theorem century_year (yoe mon : Nat) :
    (yoe : Int) + 5 * 400 + (if mon ≤ 2 then 1 else 0) = 2000 + ((if mon ≤ 2 then yoe + 1 else yoe : Nat) : Int) := by
  split <;> omega

/-- `civil_date` from the first of March 2000 on. -/
theorem civil_date_march {day : Int} {doe yoe mp mon : Nat} (start : day + 719468 = doe + 146097 * 5) (early : doe < 36465)
    (year : yoe = (doe - doe / 1460) / 365) (small : yoe < 100)
    (month : mp = (5 * (doe - (365 * yoe + yoe / 4)) + 2) / 153) (named : mon = if mp < 10 then mp + 3 else mp - 9) :
    civil_date day =
      ((yoe : Int) + 5 * 400 + (if mon ≤ 2 then 1 else 0), mon, doe - (365 * yoe + yoe / 4) - (153 * mp + 2) / 5 + 1) := by
  obtain ⟨era, place⟩ := era_place start (Nat.lt_trans early (by decide))
  have first_century : doe / 36524 = 0 := Nat.div_eq_of_lt (Nat.lt_trans early (by decide))
  have first_era : doe / 146096 = 0 := Nat.div_eq_of_lt (Nat.lt_trans early (by decide))
  have century : yoe / 100 = 0 := Nat.div_eq_of_lt small
  simp only [civil_date, era, place, first_century, first_era, Nat.sub_zero, Nat.add_zero, ← year, century, ← month, ← named]

/-- The dates of the century, day by day. -/
theorem civil_date_days {day : Nat} (inside : day < CENTURY) :
    ∃ year mon mday : Nat, civil_date (10957 + (day : Int)) = (2000 + (year : Int), mon, mday) ∧ year < 100 ∧ (1 ≤ mon ∧ mon ≤ 12) ∧
      (1 ≤ mday ∧ mday ≤ month_days year mon) ∧ 365 * year + (year + 3) / 4 + month_start year mon + (mday - 1) = day := by
  unfold CENTURY at inside
  by_cases first : day < 60
  · -- January and February 2000 belong to the century before
    have found : ∀ day : Nat, day < 60 → civil_date (10957 + (day : Int)) =
        if day < 31 then (2000, 1, day + 1) else (2000, 2, day - 30) := by decide
    rw [found day first]
    by_cases january : day < 31
    · rw [if_pos january]
      refine ⟨0, 1, day + 1, by simp, by omega, by omega, ⟨by omega, ?_⟩, ?_⟩
      · simp only [month_days]
        omega
      · simp only [month_start]
        omega
    · rw [if_neg january]
      refine ⟨0, 2, day - 30, by simp, by omega, by omega, ⟨by omega, ?_⟩, ?_⟩
      · simp only [month_days, leap_day, if_true]
        omega
      · simp only [month_start]
        omega
  · obtain ⟨doe, rfl⟩ : ∃ doe, day = doe + 60 := ⟨day - 60, by omega⟩
    have early : doe < 36465 := by omega
    obtain ⟨yoe, year⟩ : ∃ yoe, yoe = (doe - doe / 1460) / 365 := ⟨_, rfl⟩
    obtain ⟨small, low, high, leap⟩ := march_year early year
    obtain ⟨mp, month⟩ : ∃ mp, mp = (5 * (doe - (365 * yoe + yoe / 4)) + 2) / 153 := ⟨_, rfl⟩
    obtain ⟨mon, y, mday, mon_eq, y_eq, mday_eq, mon_range, mday_range, counted⟩ :=
      @march_month yoe _ _ (by omega) (by omega) month
    have whole : 365 * y + (y + 3) / 4 + month_start y mon + (mday - 1) = doe + 60 := by
      rw [counted]
      clear counted
      omega
    refine ⟨y, mon, mday, ?_, by omega, mon_range, mday_range, whole⟩
    rw [civil_date_march (march_start doe) early year small month mon_eq, century_year, ← y_eq, ← mday_eq]

/-! ### Broken-down time -/

/-- The day of the week, from Sunday on, that `gmtime_r` adds to its result. -/
def tm_wday (t : Int) : Nat := ((t / 86400 + 4) % 7).toNat

def is_leap (year : Int) : Prop := year % 4 = 0 ∧ (year % 100 ≠ 0 ∨ year % 400 = 0)

instance (year : Int) : Decidable (is_leap year) := instDecidableAnd

/-- The days of the year before a date. -/
def tm_yday (tm : Tm) : Nat :=
  [0, 31, 59, 90, 120, 151, 181, 212, 243, 273, 304, 334].getD tm.tm_mon 0 +
    (if tm.tm_mon > 1 ∧ is_leap (tm.tm_year + 1900) then 1 else 0) + (tm.tm_mday - 1)

/-- The time of a date that there is, in UTC. -/
def mktime (tm : Tm) : Int :=
  tm.tm_sec + tm.tm_min * 60 + tm.tm_hour * 3600 + tm_yday tm * 86400 + (tm.tm_year - 70) * 31536000 +
    ((tm.tm_year - 69) / 4) * 86400 - ((tm.tm_year - 1) / 100) * 86400 + ((tm.tm_year + 299) / 400) * 86400

/-- The time of the day, as the library takes it. -/
structure RTC_TimeTypeDef where
  Hours : Nat
  Minutes : Nat
  Seconds : Nat
  deriving DecidableEq

structure RTC_DateTypeDef where
  WeekDay : Nat
  Month : Nat
  Date : Nat
  Year : Nat
  deriving DecidableEq

/-- What the library takes for a time. -/
structure RTC_TimeTypeDef.Valid (t : RTC_TimeTypeDef) : Prop where
  hours : t.Hours < 24
  minutes : t.Minutes < 60
  seconds : t.Seconds < 60

/-- What the library takes for a date. -/
structure RTC_DateTypeDef.Valid (d : RTC_DateTypeDef) : Prop where
  weekday : 1 ≤ d.WeekDay ∧ d.WeekDay ≤ 7
  month : 1 ≤ d.Month ∧ d.Month ≤ 12
  date : 1 ≤ d.Date ∧ d.Date ≤ 31
  year : d.Year < 100

def Calendar.time (c : Calendar) : RTC_TimeTypeDef := ⟨c.Hours, c.Minutes, c.Seconds⟩

def Calendar.date (c : Calendar) : RTC_DateTypeDef := ⟨c.WeekDay, c.Month, c.Date, c.Year⟩

def Calendar.set_time (t : RTC_TimeTypeDef) (c : Calendar) : Calendar :=
  { c with Hours := t.Hours, Minutes := t.Minutes, Seconds := t.Seconds }

def Calendar.set_date (d : RTC_DateTypeDef) (c : Calendar) : Calendar :=
  { c with WeekDay := d.WeekDay, Month := d.Month, Date := d.Date, Year := d.Year }

/-- The fields of the RTC for a broken-down time. -/
def rtc_time (tm : Tm) : RTC_TimeTypeDef := ⟨tm.tm_hour % 256, tm.tm_min % 256, tm.tm_sec % 256⟩

def rtc_date (tm : Tm) (wday : Nat) : RTC_DateTypeDef where
  WeekDay := (if wday = 0 then 7 else wday) % 256
  Month := (tm.tm_mon + 1) % 256
  Date := tm.tm_mday % 256
  Year := ((tm.tm_year - 100) % 256).toNat

def rtc_tm (t : RTC_TimeTypeDef) (d : RTC_DateTypeDef) : Tm :=
  { tm_hour := t.Hours, tm_min := t.Minutes, tm_sec := t.Seconds, tm_mday := d.Date, tm_mon := d.Month - 1
    tm_year := d.Year + 100 }

/-- What the RTC shows, as seconds. -/
def shown_epoch (tm : Tm) : Option UInt32 :=
  let t := mktime tm
  if t = -1 ∨ !ts_in_range t then none else some (UInt32.ofNat (t % 2^32).toNat)

section
variable {c : Calendar}

theorem tm_yday_month {c : Calendar} (dated : c.Dated) :
    tm_yday (rtc_tm c.time c.date) = month_start c.Year c.Month + (c.Date - 1) := by
  obtain ⟨year, ⟨first, last⟩, -, -⟩ := dated
  have leap : is_leap ((c.Year : Int) + 100 + 1900) ↔ c.Year % 4 = 0 := by
    unfold is_leap
    omega
  simp only [tm_yday, rtc_tm, Calendar.date, leap]
  obtain month | month | month | month | month | month | month | month | month | month | month | month : c.Month = 1 ∨ c.Month = 2 ∨
      c.Month = 3 ∨ c.Month = 4 ∨ c.Month = 5 ∨ c.Month = 6 ∨ c.Month = 7 ∨ c.Month = 8 ∨ c.Month = 9 ∨ c.Month = 10 ∨
      c.Month = 11 ∨ c.Month = 12 := by omega
  all_goals simp [month, month_start, leap_day]

theorem mktime_seconds (dated : c.Dated) : mktime (rtc_tm c.time c.date) = TS_MIN + c.seconds := by
  have yday := tm_yday_month dated
  have year := dated.year
  simp only [mktime, yday]
  simp only [rtc_tm, Calendar.time, Calendar.date, Calendar.seconds, Calendar.days, TS_MIN, Nat.cast_add, Nat.cast_mul, Nat.cast_ofNat]
  have fours : ((c.Year : Int) + 100 - 69) / 4 = ((c.Year + 3) / 4 : Nat) + 7 := by omega
  have centuries : ((c.Year : Int) + 100 - 1) / 100 = (((c.Year : Int) + 100) + 299) / 400 := by omega
  rw [fours, centuries]
  omega

theorem seconds_lt (valid : c.Valid) : c.seconds < 86400 * CENTURY := by
  obtain ⟨⟨year, ⟨first, last⟩, ⟨low, high⟩, -⟩, hours, minutes, seconds⟩ := valid
  have date : month_start c.Year c.Month + (c.Date - 1) < 365 + leap_day c.Year := by
    have small := leap_day_le c.Year
    by_cases december : c.Month = 12
    · simp only [december, month_start, month_days] at high ⊢
      omega
    · have later := @month_start_succ c.Year c.Month first (by omega)
      have bound : month_start c.Year (c.Month + 1) ≤ 334 + leap_day c.Year := by
        unfold month_start
        split <;> omega
      omega
  have year_days := leap_day_eq c.Year
  have days : c.days < CENTURY := by
    simp only [Calendar.days, CENTURY]
    omega
  unfold Calendar.seconds
  omega

theorem in_range_iff {t : Int} : ts_in_range t = true ↔ 946684800 ≤ t ∧ t < 4102444800 := by
  simp [ts_in_range, TS_MIN, TS_MAX]

/-- The RTC shows the seconds that its calendar stands for. -/
theorem shown_valid (valid : c.Valid) :
    ∃ epoch, shown_epoch (rtc_tm c.time c.date) = some epoch ∧ (epoch.toNat : Int) = TS_MIN + c.seconds := by
  have inside := seconds_lt valid
  have shown := mktime_seconds valid.dated
  have range : ts_in_range (TS_MIN + c.seconds) = true := by
    rw [in_range_iff]
    simp only [TS_MIN, CENTURY] at inside ⊢
    omega
  have some_ : ¬ (TS_MIN + (c.seconds : Int) = -1 ∨ !ts_in_range (TS_MIN + c.seconds)) := by
    rw [range]
    simp only [TS_MIN, Bool.not_true, Bool.false_eq_true, or_false]
    omega
  refine ⟨_, by rw [shown_epoch, shown, if_neg some_], ?_⟩
  simp only [TS_MIN, CENTURY, UInt32.toNat_ofNat'] at inside ⊢
  omega

/-- A time of the century, put into the RTC. -/
theorem rtc_set_valid {t : Int} (range : ts_in_range t = true) : ∃ tm, gmtime_r t = some tm ∧
    (rtc_time tm).Valid ∧ (rtc_date tm (tm_wday t)).Valid ∧
    ∀ c : Calendar, (Calendar.set_date (rtc_date tm (tm_wday t)) (c.set_time (rtc_time tm))).Valid ∧
      TS_MIN + ((Calendar.set_date (rtc_date tm (tm_wday t)) (c.set_time (rtc_time tm))).seconds : Int) = t := by
  rw [in_range_iff] at range
  obtain ⟨n, rfl⟩ : ∃ n : Nat, t = 946684800 + n := ⟨(t - 946684800).toNat, by omega⟩
  have inside : n / 86400 < CENTURY := by
    unfold CENTURY
    omega
  obtain ⟨year, mon, mday, civil, small, months, days, counted⟩ := civil_date_days inside
  have day : ((946684800 : Int) + n) / 86400 = 10957 + (n / 86400 : Nat) := by omega
  have second : (((946684800 : Int) + n) % 86400).toNat = n % 86400 := by omega
  have week : tm_wday ((946684800 : Int) + n) = (n / 86400 + 6) % 7 := by
    unfold tm_wday
    rw [day]
    omega
  have found : gmtime_r ((946684800 : Int) + n) =
      some ⟨100 + year, mon - 1, mday, n % 86400 / 3600, n % 86400 / 60 % 60, n % 86400 % 60⟩ := by
    simp only [gmtime_r, day, civil, second]
    rw [if_pos (by omega)]
    simp only [Option.some.injEq, Tm.mk.injEq, and_true]
    omega
  have long : mday ≤ 31 := by
    have small := leap_day_le year
    refine days.2.trans ?_
    unfold month_days
    split <;> omega
  have month : (mon - 1 + 1) % 256 = mon := by omega
  have date : mday % 256 = mday := by omega
  have year_ : ((100 + (year : Int) - 100) % 256).toNat = year := by omega
  have weekday : (if (n / 86400 + 6) % 7 = 0 then 7 else (n / 86400 + 6) % 7) % 256 = (n / 86400 + 5) % 7 + 1 := by
    split <;> omega
  have time_fields : rtc_time ⟨100 + year, mon - 1, mday, n % 86400 / 3600, n % 86400 / 60 % 60, n % 86400 % 60⟩ =
      ⟨n % 86400 / 3600, n % 86400 / 60 % 60, n % 86400 % 60⟩ := by
    simp only [rtc_time, RTC_TimeTypeDef.mk.injEq]
    omega
  have date_fields : rtc_date ⟨100 + year, mon - 1, mday, n % 86400 / 3600, n % 86400 / 60 % 60, n % 86400 % 60⟩
      (tm_wday ((946684800 : Int) + n)) = ⟨(n / 86400 + 5) % 7 + 1, mon, mday, year⟩ := by
    simp only [rtc_date, week, weekday, month, date, year_]
  refine ⟨_, found, ?_, ?_, fun c => ?_⟩
  · rw [time_fields]
    exact ⟨by simp only; omega, by simp only; omega, by simp only; omega⟩
  · rw [date_fields]
    exact ⟨by simp only; omega, months, ⟨days.1, long⟩, small⟩
  rw [time_fields, date_fields]
  have whole : ∀ w h m s, Calendar.days ⟨year, mon, mday, w, h, m, s⟩ = n / 86400 := fun _ _ _ _ => counted
  refine ⟨⟨⟨small, months, days, ?_⟩, ?_, ?_, ?_⟩, ?_⟩
  · exact congrArg (fun day => (day + 5) % 7 + 1) (whole _ _ _ _).symm
  · simp only [Calendar.set_date, Calendar.set_time]
    omega
  · simp only [Calendar.set_date, Calendar.set_time]
    omega
  · simp only [Calendar.set_date, Calendar.set_time]
    omega
  · simp only [Calendar.seconds, Calendar.set_date, Calendar.set_time, whole, TS_MIN]
    omega

end

def RTC_BKP_MAGIC : UInt32 := 0x54494D45

/-- The RTC and its backup domain, which keeps what it has through resets and power cuts, by the
    calls of the library: most return whether all went well, and the two that read nothing if
    not. `BACKUPRESET` is the reset of the backup domain, `RTC_CONFIG` clocks the RTC by the
    crystal, and `source_lse` tells whether it is. `second`: a second of the crystal has passed. -/
structure Rtc (ρ : Type) where
  source_lse : ρ → Bool
  BACKUPRESET : ρ → ρ
  HAL_RCC_OscConfig : ρ → Bool × ρ
  RTC_CONFIG : ρ → ρ
  HAL_RTC_Init : ρ → Bool × ρ
  HAL_RTCEx_BKUPRead : ρ → UInt32
  HAL_RTCEx_BKUPWrite : UInt32 → ρ → ρ
  HAL_RTC_SetTime : RTC_TimeTypeDef → ρ → Bool × ρ
  HAL_RTC_SetDate : RTC_DateTypeDef → ρ → Bool × ρ
  HAL_RTC_GetTime : ρ → Option RTC_TimeTypeDef × ρ
  HAL_RTC_GetDate : ρ → Option RTC_DateTypeDef × ρ
  second : ρ → ρ

/-- What the backup domain has: its clock source, its first register and the calendar. -/
structure Backup where
  lse : Bool
  dr0 : UInt32
  cal : Calendar

/-- What is promised of an RTC that works: every call succeeds and changes nothing but what it is
    for, and once it has its crystal the calendar counts the seconds. -/
structure Works {ρ : Type} (rtc : Rtc ρ) (has : ρ → Backup) : Prop where
  source : ∀ k, rtc.source_lse k = (has k).lse
  reset : ∀ k, (has (rtc.BACKUPRESET k)).dr0 = 0
  osc : ∀ k, (rtc.HAL_RCC_OscConfig k).1 = true ∧ has (rtc.HAL_RCC_OscConfig k).2 = has k
  config : ∀ k, has (rtc.RTC_CONFIG k) = { has k with lse := true }
  init : ∀ k, (rtc.HAL_RTC_Init k).1 = true ∧ has (rtc.HAL_RTC_Init k).2 = has k
  mark : ∀ k, rtc.HAL_RTCEx_BKUPRead k = (has k).dr0
  marked : ∀ v k, has (rtc.HAL_RTCEx_BKUPWrite v k) = { has k with dr0 := v }
  set_time : ∀ t k, t.Valid → (rtc.HAL_RTC_SetTime t k).1 = true ∧
    has (rtc.HAL_RTC_SetTime t k).2 = { has k with cal := (has k).cal.set_time t }
  set_date : ∀ d k, d.Valid → (rtc.HAL_RTC_SetDate d k).1 = true ∧
    has (rtc.HAL_RTC_SetDate d k).2 = { has k with cal := (has k).cal.set_date d }
  get_time : ∀ k, (rtc.HAL_RTC_GetTime k).1 = some (has k).cal.time ∧ has (rtc.HAL_RTC_GetTime k).2 = has k
  get_date : ∀ k, (rtc.HAL_RTC_GetDate k).1 = some (has k).cal.date ∧ has (rtc.HAL_RTC_GetDate k).2 = has k
  counts : ∀ k, (has k).lse = true → (has k).cal.Valid → has (rtc.second k) = { has k with cal := (has k).cal.tick }

section
variable {ρ : Type} (rtc : Rtc ρ)

def rtc_read_epoch (k : ρ) : Option UInt32 × ρ :=
  match rtc.HAL_RTC_GetTime k with
  | (none, k) => (none, k)
  | (some rtc_t, k) =>
    match rtc.HAL_RTC_GetDate k with
    | (none, k) => (none, k)
    | (some rtc_d, k) => (shown_epoch (rtc_tm rtc_t rtc_d), k)

/-- The first of January 2020, a Wednesday; marks the backup domain once it is set. -/
def rtc_set_default (k : ρ) : ρ :=
  let r := rtc.HAL_RTC_SetTime ⟨0, 0, 0⟩ k
  if r.1 then
    let r := rtc.HAL_RTC_SetDate ⟨3, 1, 1, 20⟩ r.2
    if r.1 then rtc.HAL_RTCEx_BKUPWrite RTC_BKP_MAGIC r.2 else r.2
  else r.2

def rtc_bringup (k : ρ) : Option UInt32 × ρ :=
  let k := if rtc.source_lse k then k else rtc.BACKUPRESET k
  let r := rtc.HAL_RCC_OscConfig k
  if !r.1 then (none, r.2)
  else
    let r := rtc.HAL_RTC_Init (rtc.RTC_CONFIG r.2)
    if !r.1 then (none, r.2)
    else
      let k := if rtc.HAL_RTCEx_BKUPRead r.2 ≠ RTC_BKP_MAGIC then rtc_set_default rtc r.2 else r.2
      let r := rtc_read_epoch rtc k
      (some (r.1.getD 0), r.2)

/-- The RTC, and the program's memory while it runs. -/
structure Board (ρ : Type) where
  backup : ρ
  running : Bool := false
  rtc_ready : Bool := false
  epoch_cache : UInt32 := 0

def io_time_init (b : Board ρ) : Board ρ :=
  let r := rtc_bringup rtc b.backup
  { backup := r.2, running := true, rtc_ready := r.1.isSome, epoch_cache := r.1.getD 0 }

def set_timestamp (t : Int) (b : Board ρ) : Bool × Board ρ :=
  if !b.rtc_ready then (false, b)
  else if !ts_in_range t then (false, b)
  else
    match gmtime_r t with
    | none => (false, b)
    | some tm =>
      let r := rtc.HAL_RTC_SetTime (rtc_time tm) b.backup
      if !r.1 then (false, { b with backup := r.2 })
      else
        let r := rtc.HAL_RTC_SetDate (rtc_date tm (tm_wday t)) r.2
        if !r.1 then (false, { b with backup := r.2 })
        else (true, { b with backup := r.2, epoch_cache := UInt32.ofNat (t % 2^32).toNat })

def time_tick_cb (b : Board ρ) : Board ρ := { b with epoch_cache := b.epoch_cache + 1 }

/-- The two clocks each count a second, the RTC at any time and the timer while the program runs;
    somebody sets the time; the power goes; the program starts again, after a reset or with the
    power back. -/
inductive Event
  | second
  | timer
  | set_timestamp (t : Int)
  | off
  | restart
  deriving DecidableEq

def step (b : Board ρ) : Event → Board ρ
  | .second => { b with backup := rtc.second b.backup }
  | .timer => if b.running then time_tick_cb b else b
  | .set_timestamp t => if b.running then (set_timestamp rtc t b).2 else b
  | .off => { b with running := false }
  | .restart => io_time_init rtc b

/-- The board, and beside it what its two clocks should show: each the last time that was accepted
    and the seconds it has counted since, but the program, after a restart, what the RTC should
    show then and the seconds since. -/
structure Told (ρ : Type) where
  board : Board ρ
  rtc_time : Int
  program_time : Int

def told (s : Told ρ) (e : Event) : Told ρ :=
  let board := step rtc s.board e
  match e with
  | .second => ⟨board, s.rtc_time + 1, s.program_time⟩
  | .timer => ⟨board, s.rtc_time, if s.board.running then s.program_time + 1 else s.program_time⟩
  | .set_timestamp t => if s.board.running ∧ ts_in_range t then ⟨board, t, t⟩ else ⟨board, s.rtc_time, s.program_time⟩
  | .off => ⟨board, s.rtc_time, s.program_time⟩
  | .restart => ⟨board, s.rtc_time, s.rtc_time⟩

/-- The century does not end. -/
def Inside (s : Told ρ) (e : Event) : Prop := e = .second → s.rtc_time + 1 < TS_MAX

instance (s : Told ρ) (e : Event) : Decidable (Inside s e) := inferInstanceAs (Decidable (_ → _))

end

/-- The RTC shows the time it should, and so does the program while it runs. -/
structure InStep {ρ : Type} (has : ρ → Backup) (s : Told ρ) : Prop where
  lse : (has s.board.backup).lse = true
  marked : (has s.board.backup).dr0 = RTC_BKP_MAGIC
  valid : (has s.board.backup).cal.Valid
  shows : TS_MIN + ((has s.board.backup).cal.seconds : Int) = s.rtc_time
  ready : s.board.running = true → s.board.rtc_ready = true
  cached : s.board.running = true → (s.board.epoch_cache.toNat : Int) = s.program_time % 2^32

section
variable {ρ : Type} {rtc : Rtc ρ} {has : ρ → Backup}

theorem rtc_read_works (works : Works rtc has) (k : ρ) :
    (rtc_read_epoch rtc k).1 = shown_epoch (rtc_tm (has k).cal.time (has k).cal.date) ∧
      has (rtc_read_epoch rtc k).2 = has k := by
  obtain ⟨time, after_time⟩ := works.get_time k
  obtain ⟨date, after_date⟩ := works.get_date (rtc.HAL_RTC_GetTime k).2
  rw [after_time] at date after_date
  unfold rtc_read_epoch
  rw [show rtc.HAL_RTC_GetTime k = (some (has k).cal.time, (rtc.HAL_RTC_GetTime k).2) from Prod.ext time rfl]
  simp only
  rw [show rtc.HAL_RTC_GetDate (rtc.HAL_RTC_GetTime k).2 =
    (some (has k).cal.date, (rtc.HAL_RTC_GetDate (rtc.HAL_RTC_GetTime k).2).2) from Prod.ext date rfl]
  exact ⟨rfl, after_date⟩

theorem rtc_set_default_works (works : Works rtc has) (k : ρ) :
    has (rtc_set_default rtc k) = { has k with dr0 := RTC_BKP_MAGIC, cal := ⟨20, 1, 1, 3, 0, 0, 0⟩ } := by
  obtain ⟨time_set, after_time⟩ := works.set_time ⟨0, 0, 0⟩ k ⟨by decide, by decide, by decide⟩
  obtain ⟨date_set, after_date⟩ := works.set_date ⟨3, 1, 1, 20⟩ (rtc.HAL_RTC_SetTime ⟨0, 0, 0⟩ k).2
    ⟨by decide, by decide, by decide, by decide⟩
  simp only [rtc_set_default, time_set, date_set, if_true]
  rw [works.marked, after_date, after_time]
  rfl

/-- The backup domain once the RTC is up: with the time that was set before, if there was one. -/
def Backup.restored (b : Backup) : Backup :=
  if b.lse ∧ b.dr0 = RTC_BKP_MAGIC then b else ⟨true, RTC_BKP_MAGIC, ⟨20, 1, 1, 3, 0, 0, 0⟩⟩

theorem rtc_bringup_works (works : Works rtc has) (k : ρ) :
    let b := (has k).restored
    (rtc_bringup rtc k).1 = some ((shown_epoch (rtc_tm b.cal.time b.cal.date)).getD 0) ∧ has (rtc_bringup rtc k).2 = b := by
  intro b
  -- the domain with the crystal as its source, before and after the default time is set
  obtain ⟨clocked, is_clocked⟩ : ∃ k', k' = (rtc.HAL_RCC_OscConfig (if rtc.source_lse k then k else rtc.BACKUPRESET k)).2 :=
    ⟨_, rfl⟩
  obtain ⟨up, is_up⟩ : ∃ k', k' = (rtc.HAL_RTC_Init (rtc.RTC_CONFIG clocked)).2 := ⟨_, rfl⟩
  have up_has : has up = { has clocked with lse := true } := by
    rw [is_up, (works.init _).2, works.config]
  obtain ⟨set_, is_set⟩ : ∃ k', k' = if rtc.HAL_RTCEx_BKUPRead up ≠ RTC_BKP_MAGIC then rtc_set_default rtc up else up :=
    ⟨_, rfl⟩
  have set_has : has set_ = b := by
    by_cases kept : (has k).lse = true ∧ (has k).dr0 = RTC_BKP_MAGIC
    · have same : has clocked = has k := by
        rw [is_clocked, (works.osc _).2, works.source, kept.1, if_pos rfl]
      have marked : (has up).dr0 = RTC_BKP_MAGIC := by rw [up_has, same, kept.2]
      rw [is_set, works.mark, if_neg (not_not_intro marked), up_has, same, ← kept.1]
      exact (if_pos kept).symm
    · have unmarked : (has up).dr0 ≠ RTC_BKP_MAGIC := by
        rw [up_has, is_clocked, (works.osc _).2, works.source]
        by_cases lse : (has k).lse = true
        · rw [if_pos lse]
          exact fun marked => kept ⟨lse, marked⟩
        · rw [if_neg lse, works.reset]
          decide
      rw [is_set, works.mark, if_pos unmarked, rtc_set_default_works works, up_has]
      exact (if_neg kept).symm
  have brought : rtc_bringup rtc k = (some ((rtc_read_epoch rtc set_).1.getD 0), (rtc_read_epoch rtc set_).2) := by
    simp only [rtc_bringup, (works.osc _).1, (works.init _).1, ← is_clocked, ← is_up, ← is_set, Bool.not_true,
      Bool.false_eq_true, if_false]
  obtain ⟨read, after⟩ := rtc_read_works works set_
  rw [brought]
  exact ⟨by rw [read, set_has], after.trans set_has⟩

/-- A time that is in range is set, and any other refused. -/
theorem set_timestamp_works (works : Works rtc has) {b : Board ρ} (ready : b.rtc_ready = true) {t : Int} :
    if ts_in_range t then
      ∃ k cal, set_timestamp rtc t b =
          (true, { b with backup := k, epoch_cache := UInt32.ofNat (t % 2^32).toNat }) ∧
        has k = { has b.backup with cal := cal } ∧ cal.Valid ∧ TS_MIN + (cal.seconds : Int) = t
    else set_timestamp rtc t b = (false, b) := by
  split
  · rename_i range
    obtain ⟨tm, found, time, date, shown⟩ := rtc_set_valid range
    obtain ⟨time_set, after_time⟩ := works.set_time _ b.backup time
    obtain ⟨date_set, after_date⟩ := works.set_date _ (rtc.HAL_RTC_SetTime (rtc_time tm) b.backup).2 date
    rw [after_time] at after_date
    refine ⟨_, _, ?_, after_date, shown (has b.backup).cal⟩
    simp only [set_timestamp, ready, range, found, time_set, date_set, Bool.not_true, Bool.false_eq_true, if_false]
  · rename_i range
    simp only [set_timestamp, ready, range, Bool.not_true, Bool.false_eq_true, if_false, Bool.not_false, if_true]

/-- This is what the registers that set the clock rely on. -/
theorem set_timestamp_agrees (works : Works rtc has) {b : Board ρ} {io : Io} (ready : b.rtc_ready = io.rtc_ready)
    (cache : b.epoch_cache = io.epoch_cache) (t : Int) :
    (set_timestamp rtc t b).1 = (Regmap.set_timestamp t io).1 ∧
      (set_timestamp rtc t b).2.epoch_cache = (Regmap.set_timestamp t io).2.epoch_cache := by
  by_cases on : b.rtc_ready = true
  · have known := @set_timestamp_works _ _ _ works _ on t
    by_cases range : ts_in_range t = true
    · rw [if_pos range] at known
      obtain ⟨k, cal, accepted, -⟩ := known
      simp [accepted, Regmap.set_timestamp, Io.call, ← ready, on, range]
    · rw [if_neg range] at known
      simp [known, Regmap.set_timestamp, Io.call, ← ready, on, range, cache]
  · simp [set_timestamp, Regmap.set_timestamp, Io.call, ← ready, on, cache]

section
variable {s : Told ρ}

theorem second_in_step (works : Works rtc has) (inStep : InStep has s) (inside : s.rtc_time + 1 < TS_MAX) :
    InStep has (told rtc s .second) := by
  obtain ⟨lse, marked, valid, shows, ready, cached⟩ := inStep
  have before : (has s.board.backup).cal.seconds + 1 < 86400 * CENTURY := by
    unfold TS_MIN at shows
    unfold TS_MAX at inside
    unfold CENTURY
    omega
  obtain ⟨valid', counted⟩ := tick_seconds valid before
  have after : has (rtc.second s.board.backup) = { has s.board.backup with cal := (has s.board.backup).cal.tick } :=
    works.counts _ lse valid
  simp only [told, step]
  refine ⟨by simp only [after, lse], by simp only [after, marked], by simp only [after, valid'], ?_, ready, cached⟩
  simp only [after, counted, ← shows]
  omega

theorem timer_in_step (inStep : InStep has s) : InStep has (told rtc s .timer) := by
  obtain ⟨lse, marked, valid, shows, ready, cached⟩ := inStep
  by_cases on : s.board.running = true
  · have counted : told rtc s .timer = ⟨time_tick_cb s.board, s.rtc_time, s.program_time + 1⟩ := by
      simp only [told, step, on, if_true]
    rw [counted]
    refine ⟨lse, marked, valid, shows, ready, fun _ => ?_⟩
    have now := cached on
    simp only [time_tick_cb, UInt32.toNat_add, show (1 : UInt32).toNat = 1 from rfl]
    omega
  · simp only [told, step, on, Bool.false_eq_true, if_false]
    exact ⟨lse, marked, valid, shows, ready, cached⟩

theorem set_in_step (works : Works rtc has) (inStep : InStep has s) (t : Int) : InStep has (told rtc s (.set_timestamp t)) := by
  obtain ⟨lse, marked, valid, shows, ready, cached⟩ := inStep
  by_cases on : s.board.running = true
  · have known := @set_timestamp_works _ _ _ works _ (ready on) t
    by_cases range : ts_in_range t = true
    · rw [if_pos range] at known
      obtain ⟨k, cal, accepted, after, valid', shows'⟩ := known
      simp only [told, step, on, range, if_true, and_self, accepted]
      refine ⟨by simp only [after, lse], by simp only [after, marked], by simp only [after, valid'],
        by simp only [after, shows'], fun _ => ready on, fun _ => ?_⟩
      simp only [UInt32.toNat_ofNat']
      omega
    · rw [if_neg range] at known
      simp only [told, step, on, range, known, if_true, Bool.false_eq_true, and_false, if_false]
      exact ⟨lse, marked, valid, shows, ready, cached⟩
  · simp only [told, step, on, Bool.false_eq_true, false_and, if_false]
    exact ⟨lse, marked, valid, shows, ready, cached⟩

/-- Any start that leaves a valid calendar. -/
theorem start_in_step (works : Works rtc has) {b : Board ρ} {t p : Int} (valid : (has b.backup).restored.cal.Valid)
    (shows : TS_MIN + ((has b.backup).restored.cal.seconds : Int) = t) (same : p = t) :
    InStep has ⟨io_time_init rtc b, t, p⟩ := by
  obtain ⟨read, after⟩ := rtc_bringup_works works b.backup
  obtain ⟨epoch, shown, value⟩ := shown_valid valid
  have bounds := seconds_lt valid
  have set_ : (has b.backup).restored.lse = true ∧ (has b.backup).restored.dr0 = RTC_BKP_MAGIC := by
    unfold Backup.restored
    split
    · assumption
    · exact ⟨rfl, rfl⟩
  rw [shown] at read
  simp only [io_time_init, read]
  refine ⟨by simp only [after, set_.1], by simp only [after, set_.2], by simp only [after, valid], by simp only [after, shows],
    fun _ => rfl, fun _ => ?_⟩
  simp only [Option.getD_some, value, same, ← shows]
  unfold CENTURY at bounds
  unfold TS_MIN
  omega

theorem restart_in_step (works : Works rtc has) (inStep : InStep has s) : InStep has (told rtc s .restart) := by
  obtain ⟨lse, marked, valid, shows, -, -⟩ := inStep
  have kept : (has s.board.backup).restored = has s.board.backup := if_pos ⟨lse, marked⟩
  exact start_in_step works (kept.symm ▸ valid) (kept.symm ▸ shows) rfl

/-- The first start: nothing in the backup domain is marked yet. -/
theorem first_in_step (works : Works rtc has) {b : Board ρ} (unmarked : rtc.HAL_RTCEx_BKUPRead b.backup ≠ RTC_BKP_MAGIC) :
    InStep has ⟨io_time_init rtc b, 1577836800, 1577836800⟩ := by
  have default : (has b.backup).restored = ⟨true, RTC_BKP_MAGIC, ⟨20, 1, 1, 3, 0, 0, 0⟩⟩ :=
    if_neg fun kept => unmarked ((works.mark _).trans kept.2)
  refine start_in_step works ?_ ?_ rfl
  · rw [default]
    exact ⟨⟨by decide, by decide, by decide, by decide⟩, by decide, by decide, by decide⟩
  · rw [default]
    decide

theorem told_in_step (works : Works rtc has) (inStep : InStep has s) {e : Event} (inside : Inside s e) :
    InStep has (told rtc s e) := by
  cases e with
  | second => exact second_in_step works inStep (inside rfl)
  | timer => exact timer_in_step inStep
  | set_timestamp t => exact set_in_step works inStep t
  | off => exact { inStep with ready := fun on => (by cases on), cached := fun on => (by cases on) }
  | restart => exact restart_in_step works inStep

end

/-- For any RTC that works, from the first start on, over any seconds of its crystal and of the
    timer, settings of the time, resets and power cuts, as long as the year 2100 does not come:
    the RTC shows, also after the power was off, the last time that was accepted and the seconds
    that it has counted since, or what it has counted since the first of January 2020, and the
    right day of the week; and the program, whenever it runs, the last time that was accepted or,
    if it was started later, the one that the RTC showed then, and the seconds that its timer
    has counted since, in 32 bits. -/
theorem clock_kept (works : Works rtc has) {b : Board ρ} (unmarked : rtc.HAL_RTCEx_BKUPRead b.backup ≠ RTC_BKP_MAGIC)
    (es : List Event) (meets : Meets (told rtc) Inside ⟨io_time_init rtc b, 1577836800, 1577836800⟩ es) :
    let s := es.foldl (told rtc) ⟨io_time_init rtc b, 1577836800, 1577836800⟩
    (s.board.running = true → (s.board.epoch_cache.toNat : Int) = s.program_time % 2^32) ∧
      (∃ epoch, (rtc_read_epoch rtc s.board.backup).1 = some epoch ∧ (epoch.toNat : Int) = s.rtc_time) ∧
      ∃ rtc_d, (rtc.HAL_RTC_GetDate s.board.backup).1 = some rtc_d ∧ rtc_d.WeekDay = (s.rtc_time / 86400 + 3) % 7 + 1 := by
  intro s
  have inStep : InStep has s :=
    @invariant _ _ (told rtc) Inside (InStep has) (fun _ _ inStep inside => told_in_step works inStep inside) _
      (first_in_step works unmarked) es meets
  obtain ⟨epoch, shown, value⟩ := shown_valid inStep.valid
  refine ⟨inStep.cached, ⟨epoch, ?_, value.trans inStep.shows⟩, _, (works.get_date _).1, ?_⟩
  · rw [(rtc_read_works works _).1, shown]
  · have time : (has s.board.backup).cal.Hours < 24 ∧ (has s.board.backup).cal.Minutes < 60 ∧
        (has s.board.backup).cal.Seconds < 60 := ⟨inStep.valid.hours, inStep.valid.minutes, inStep.valid.seconds⟩
    simp only [Calendar.date]
    rw [inStep.valid.dated.weekday, ← inStep.shows]
    simp only [Calendar.seconds, TS_MIN]
    omega

end

/-- An RTC that works, as the registers that the backup domain has. -/
def registers : Rtc Backup where
  source_lse k := k.lse
  BACKUPRESET _ := ⟨false, 0, {}⟩
  HAL_RCC_OscConfig k := (true, k)
  RTC_CONFIG k := { k with lse := true }
  HAL_RTC_Init k := (true, k)
  HAL_RTCEx_BKUPRead k := k.dr0
  HAL_RTCEx_BKUPWrite v k := { k with dr0 := v }
  HAL_RTC_SetTime t k := (true, { k with cal := k.cal.set_time t })
  HAL_RTC_SetDate d k := (true, { k with cal := k.cal.set_date d })
  HAL_RTC_GetTime k := (some k.cal.time, k)
  HAL_RTC_GetDate k := (some k.cal.date, k)
  second k := if k.lse then { k with cal := k.cal.tick } else k

theorem registers_work : Works registers id where
  source _ := rfl
  reset _ := rfl
  osc _ := ⟨rfl, rfl⟩
  config _ := rfl
  init _ := ⟨rfl, rfl⟩
  mark _ := rfl
  marked _ _ := rfl
  set_time _ _ _ := ⟨rfl, rfl⟩
  set_date _ _ _ := ⟨rfl, rfl⟩
  get_time _ := ⟨rfl, rfl⟩
  get_date _ := ⟨rfl, rfl⟩
  counts _ lse _ := if_pos lse

/-- Set to the last second of a February, off while March comes, and on again; then the timer is
    a second behind the crystal. -/
theorem clock_kept_off :
    let es := [.set_timestamp 1709251199, .off, .second, .second, .restart, .second, .timer, .second]
    let s := es.foldl (told registers) ⟨io_time_init registers ⟨⟨false, 0, {}⟩, false, false, 0⟩, 1577836800, 1577836800⟩
    (s.board.epoch_cache.toNat : Int) = 1709251202 ∧ s.rtc_time = 1709251203 ∧
      ∃ epoch, (rtc_read_epoch registers s.board.backup).1 = some epoch ∧ (epoch.toNat : Int) = 1709251203 := by
  intro es s
  have program : s.program_time % 2^32 = 1709251202 := by decide
  have crystal : s.rtc_time = 1709251203 := by decide
  obtain ⟨cached, shown, -⟩ := @clock_kept _ _ _ registers_work ⟨⟨false, 0, {}⟩, false, false, 0⟩ (by decide) es (by decide)
  exact ⟨(cached (by decide)).trans program, crystal, crystal ▸ shown⟩

end IoEdgeHub.RtcClock
