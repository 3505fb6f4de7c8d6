import RustSql.Base.Panics
import RustSql.Common.CivilDates

/-!
# Dates with times of day

The moments of the calendar in milliseconds, and the day numbers of the code in 64-bit integers:
`days_from_civil` panics where one of its sums does not fit.
-/

namespace RustSql

/-! ## Integers of 64 bits -/

/-- The values of an `i64`. -/
def FitsI64 (value : ℤ) : Prop := -2^63 ≤ value ∧ value < 2^63

instance (value : ℤ) : Decidable (FitsI64 value) :=
  inferInstanceAs (Decidable (_ ∧ _))

/-- The result of an operation of `i64`; a panic where it does not fit. -/
def exactI64 (value : ℤ) : Outcome ℤ := if FitsI64 value then .ok value else .stuck

/-- A number that fits is exact. -/
theorem exactI64_fits {value : ℤ} (h : FitsI64 value) : exactI64 value=.ok value := if_pos h

/-- An exact number fits. -/
theorem exactI64_ok {value found : ℤ} (h : exactI64 value=.ok found) :
    FitsI64 value ∧ found=value := by
  unfold exactI64 at h
  split at h
  · next hfits =>
    cases h
    exact ⟨hfits,rfl⟩
  · cases h

/-- The year that `days_from_civil` divides by 400. -/
def eraStart (adjustedYear : ℤ) : Outcome ℤ :=
  if 0 ≤ adjustedYear then .ok adjustedYear else exactI64 (adjustedYear-399)

/-- The start of an era, years before zero moved back. -/
theorem eraStart_ok {year start : ℤ} (h : eraStart year=.ok start) :
    start=if 0 ≤ year then year else year-399 := by
  unfold eraStart at h
  split at h
  · next hpos =>
    rw [if_pos hpos]
    exact (Outcome.ok.inj h).symm
  · next hneg =>
    rw [if_neg hneg]
    exact (exactI64_ok h).2

/-- `days_from_civil`. The sums in between are small for a month and a day that were checked. -/
def daysFromCivilI64 (date : Date) : Outcome ℤ := do
  let adjustedYear ← exactI64 (date.year-if date.month ≤ 2 then 1 else 0)
  let start ← eraStart adjustedYear
  let era := start/400
  let before ← exactI64 (era*400)
  let yoe ← exactI64 (adjustedYear-before)
  let mp := date.month+if 2 < date.month then -3 else 9
  let doy := (153*mp+2)/5+date.day-1
  let doe := yoe*365+yoe/4-yoe/100+doy
  let eraDays ← exactI64 (era*146097)
  let days ← exactI64 (eraDays+doe)
  exactI64 (days-719468)

/-- The day number of a date can be counted in an `i64`. -/
def DaysFit (date : Date) : Prop :=
  -2^63 ≤ daysFromCivil date ∧ daysFromCivil date+719468 < 2^63

instance (date : Date) : Decidable (DaysFit date) :=
  inferInstanceAs (Decidable (_ ∧ _))

/-- A month and a day as the parsers check them. -/
def Date.Checked (date : Date) : Prop :=
  (1 ≤ date.month ∧ date.month ≤ 12) ∧ 1 ≤ date.day ∧ date.day ≤ 31

/-- A date of the calendar passes the check. -/
theorem Date.Valid.checked {date : Date} (h : date.Valid) : date.Checked := by
  obtain ⟨hlow,hhigh,hpos,hle⟩ := h
  have hlength : monthLength date.year date.month ≤ 31 := by
    unfold monthLength
    split_ifs <;> omega
  exact ⟨⟨hlow,hhigh⟩,hpos,hle.trans hlength⟩

/-- A date whose days fit has its number. -/
theorem daysFromCivilI64_fits {date : Date} (h : date.Checked) (hfit : DaysFit date) :
    daysFromCivilI64 date=.ok (daysFromCivil date) := by
  obtain ⟨⟨hlow,hhigh⟩,hpos,hle⟩ := h
  obtain ⟨mp,hmp⟩ : ∃ mp, mp=date.month+if 2 < date.month then -3 else 9 := ⟨_,rfl⟩
  obtain ⟨doy,hdoy⟩ : ∃ doy, doy=(153*mp+2)/5+date.day-1 := ⟨_,rfl⟩
  obtain ⟨year,hyear⟩ : ∃ year, year=date.year-if date.month ≤ 2 then 1 else 0 := ⟨_,rfl⟩
  obtain ⟨shifted,hshifted⟩ : ∃ shifted, shifted=if 0 ≤ year then year else year-399 := ⟨_,rfl⟩
  obtain ⟨yoe,hyoe⟩ : ∃ yoe, yoe=year-shifted/400*400 := ⟨_,rfl⟩
  obtain ⟨doe,hdoe⟩ : ∃ doe, doe=yoe*365+yoe/4-yoe/100+doy := ⟨_,rfl⟩
  have hdays : daysFromCivil date=shifted/400*146097+doe-719468 := by
    rw [hdoe,hdoy,hmp,hyoe,hshifted,hyear]
    rfl
  have hmonth : 0 ≤ mp ∧ mp ≤ 11 := by
    split_ifs at hmp <;> omega
  have hyears : 0 ≤ yoe ∧ yoe ≤ 800 := by
    split_ifs at hshifted <;> omega
  have hera : 0 ≤ doe ∧ doe < 719468 := by omega
  obtain ⟨hmin,hmax⟩ := hfit
  rw [hdays] at hmin hmax
  have hshift : eraStart year=.ok shifted := by
    unfold eraStart
    split_ifs at hshifted ⊢
    · rw [hshifted]
    · rw [hshifted,exactI64_fits]
      constructor <;> omega
  unfold daysFromCivilI64
  rw [←hyear,exactI64_fits (by constructor <;> split_ifs at hshifted <;> omega)]
  rw [Outcome.bind_ok,hshift,Outcome.bind_ok]
  dsimp only
  rw [exactI64_fits (by constructor <;> omega),Outcome.bind_ok,←hyoe,
    exactI64_fits (by constructor <;> omega),Outcome.bind_ok,
    exactI64_fits (by constructor <;> omega),Outcome.bind_ok,←hmp,←hdoy,←hdoe,
    exactI64_fits (by constructor <;> omega),Outcome.bind_ok,
    exactI64_fits (by constructor <;> omega),hdays]

/-- A number found is the date's. -/
theorem daysFromCivilI64_ok {date : Date} {days : ℤ}
    (hdays : daysFromCivilI64 date=.ok days) : DaysFit date ∧ days=daysFromCivil date := by
  unfold daysFromCivilI64 at hdays
  obtain ⟨year,hyear,hdays⟩ := Outcome.bind_ok_inv hdays
  obtain ⟨shifted,hshifted,hdays⟩ := Outcome.bind_ok_inv hdays
  obtain ⟨before,hbefore,hdays⟩ := Outcome.bind_ok_inv hdays
  obtain ⟨yoe,hyoe,hdays⟩ := Outcome.bind_ok_inv hdays
  obtain ⟨eraDays,heraDays,hdays⟩ := Outcome.bind_ok_inv hdays
  obtain ⟨sum,hsum,hdays⟩ := Outcome.bind_ok_inv hdays
  obtain ⟨-,rfl⟩ := exactI64_ok hyear
  obtain ⟨-,rfl⟩ := exactI64_ok hbefore
  obtain ⟨-,rfl⟩ := exactI64_ok hyoe
  obtain ⟨-,rfl⟩ := exactI64_ok heraDays
  obtain ⟨hmax,rfl⟩ := exactI64_ok hsum
  obtain ⟨hmin,rfl⟩ := exactI64_ok hdays
  obtain rfl := eraStart_ok hshifted
  refine ⟨⟨hmin.1,?_⟩,rfl⟩
  have hlast := hmax.2
  unfold daysFromCivil
  dsimp only
  linarith

/-! ## Months -/

/-- The months of a date from January of the year 0 on. -/
def Date.months (date : Date) : ℤ := 12*date.year+date.month-1

/-- The first day of a month. -/
def monthStart (months : ℤ) : Date := ⟨months/12,months%12+1,1⟩

/-- The days of a month that is counted from January of the year 0 on. -/
def lengthOf (months : ℤ) : ℤ := monthLength (months/12) (months%12+1)

/-- The first of a month is a date. -/
theorem monthStart_valid (months : ℤ) : (monthStart months).Valid := by
  have hlength := monthLength_pos (months/12) (months%12+1)
  refine ⟨?_,?_,le_rfl,?_⟩
  · unfold monthStart
    dsimp only
    omega
  · unfold monthStart
    dsimp only
    omega
  · change 1 ≤ monthLength (months/12) (months%12+1)
    omega

/-- Days of one month are counted from its first. -/
theorem Date.number_day (year month day : ℤ) :
    (⟨year,month,day⟩ : Date).number=(⟨year,month,1⟩ : Date).number+day-1 := by
  unfold Date.number Date.marchYear Date.marchMonth
  dsimp only
  ring

/-- A month begins when the month before it has gone by. -/
theorem number_monthStart_succ (months : ℤ) :
    (monthStart (months+1)).number=(monthStart months).number+lengthOf months := by
  obtain ⟨hlow,hhigh,-,-⟩ := monthStart_valid months
  have hlength := monthLength_pos (months/12) (months%12+1)
  have hlast : (⟨months/12,months%12+1,lengthOf months⟩ : Date).Valid :=
    ⟨hlow,hhigh,by change 1 ≤ monthLength _ _; omega,le_rfl⟩
  have hnext : (⟨months/12,months%12+1,lengthOf months⟩ : Date).next=monthStart (months+1) := by
    unfold Date.next monthStart lengthOf
    dsimp only
    rw [if_neg (lt_irrefl _)]
    split_ifs
    · congr 1 <;> omega
    · congr 1 <;> omega
  rw [←hnext,hlast.number_next,Date.number_day]
  unfold monthStart
  ring

/-- So is the number of a date. -/
theorem Date.Checked.number_months {date : Date} (h : date.Checked) :
    date.number=(monthStart date.months).number+date.day-1 := by
  obtain ⟨year,month,day⟩ := date
  obtain ⟨⟨hlow,hhigh⟩,-⟩ := h
  dsimp only at hlow hhigh
  have hstart : monthStart (Date.months ⟨year,month,day⟩)=⟨year,month,1⟩ := by
    unfold monthStart Date.months
    dsimp only
    congr 1 <;> omega
  rw [hstart]
  exact Date.number_day year month day

/-- Later months start later. -/
theorem monthStart_le {months later : ℤ} (h : months ≤ later) :
    (monthStart months).number ≤ (monthStart later).number := by
  induction later,h using Int.leInduction with
  | base => exact le_rfl
  | succ later _ ih =>
    have hlength := monthLength_pos (later/12) (later%12+1)
    rw [number_monthStart_succ]
    change 28 ≤ lengthOf later at hlength
    omega

/-- After the whole month before. -/
theorem monthStart_lt {months later : ℤ} (h : months < later) :
    (monthStart months).number+lengthOf months ≤ (monthStart later).number := by
  rw [←number_monthStart_succ]
  exact monthStart_le h

/-! ## Times of day -/

/-- `ParsedDateTimeParts`, the same in the executor and in `index_expr.rs`. -/
structure ParsedDateTimeParts where
  year : ℤ
  month : ℤ
  day : ℤ
  hour : ℤ
  minute : ℤ
  second : ℤ
  millisecond : ℤ
  deriving DecidableEq

namespace ParsedDateTimeParts

/-- The date without its time of day. -/
def date (parts : ParsedDateTimeParts) : Date := ⟨parts.year,parts.month,parts.day⟩

/-- The milliseconds since midnight. -/
def clock (parts : ParsedDateTimeParts) : ℤ :=
  ((parts.hour*60+parts.minute)*60+parts.second)*1000+parts.millisecond

/-- A time of day. -/
structure TimeValid (parts : ParsedDateTimeParts) : Prop where
  hour : 0 ≤ parts.hour ∧ parts.hour ≤ 23
  minute : 0 ≤ parts.minute ∧ parts.minute ≤ 59
  second : 0 ≤ parts.second ∧ parts.second ≤ 59
  millisecond : 0 ≤ parts.millisecond ∧ parts.millisecond ≤ 999

/-- A date of the calendar, in any year of an `i64`, with a time of day. -/
structure Valid (parts : ParsedDateTimeParts) : Prop where
  year : FitsI64 parts.year
  date : parts.date.Valid
  time : parts.TimeValid

/-- The milliseconds since the beginning of 1970. -/
def moment (parts : ParsedDateTimeParts) : ℤ := parts.date.number*86400000+parts.clock

/-- The date and the time of day of a moment. -/
def atMoment (moment : ℤ) : ParsedDateTimeParts :=
  let date := dateOf (moment/86400000)
  let millis := moment%86400000
  ⟨date.year,date.month,date.day,millis/3600000,millis%3600000/60000,millis%60000/1000,
    millis%1000⟩

variable {parts : ParsedDateTimeParts}

/-- A day has 86400000 milliseconds. -/
theorem TimeValid.clock_bounds (h : parts.TimeValid) :
    0 ≤ parts.clock ∧ parts.clock < 86400000 := by
  obtain ⟨hhour,hminute,hsecond,hmillisecond⟩ := h
  unfold clock
  omega

/-- The parts of a moment have it. -/
theorem moment_atMoment (moment : ℤ) : (atMoment moment).moment=moment := by
  have hdate : (atMoment moment).date=dateOf (moment/86400000) := rfl
  have hclock : (atMoment moment).clock=moment%86400000 := by
    unfold clock atMoment
    dsimp only
    omega
  unfold ParsedDateTimeParts.moment
  rw [hdate,(dateOf_spec _).2,hclock]
  omega

/-- Valid parts are those of their moment. -/
theorem atMoment_eq (hdate : parts.date.Valid) (htime : parts.TimeValid) :
    atMoment parts.moment=parts := by
  obtain ⟨hlow,hhigh⟩ := htime.clock_bounds
  have hday : parts.moment/86400000=parts.date.number := by
    unfold moment
    omega
  have hclock : parts.moment%86400000=parts.clock := by
    unfold moment
    omega
  have hsame : dateOf parts.date.number=parts.date :=
    ((dateOf_spec _).1).eq_of_number hdate (dateOf_spec _).2
  obtain ⟨hhour,hminute,hsecond,hmillisecond⟩ := htime
  unfold atMoment
  rw [hday,hclock,hsame]
  unfold clock date
  dsimp only
  obtain ⟨year,month,day,hour,minute,second,millisecond⟩ := parts
  dsimp only at hhour hminute hsecond hmillisecond ⊢
  congr 1 <;> omega

/-- The milliseconds from the first of the month on. -/
def monthClock (parts : ParsedDateTimeParts) : ℤ := (parts.day-1)*86400000+parts.clock

/-- A moment is that of its month and the time since. -/
theorem moment_eq (h : parts.date.Valid) :
    parts.moment=(monthStart parts.date.months).number*86400000+parts.monthClock := by
  have hday : parts.date.day=parts.day := rfl
  rw [moment,h.checked.number_months,monthClock,hday]
  ring

/-- That time lies within the month. -/
theorem monthClock_bounds (hdate : parts.date.Valid) (htime : parts.TimeValid) :
    0 ≤ parts.monthClock ∧ parts.monthClock < lengthOf parts.date.months*86400000 := by
  obtain ⟨hclock,hclock'⟩ := htime.clock_bounds
  obtain ⟨hlow,hhigh,hpos,hle⟩ := hdate
  have hlength : lengthOf parts.date.months=monthLength parts.date.year parts.date.month := by
    unfold lengthOf Date.months
    congr 1 <;> omega
  have hday : parts.date.day=parts.day := rfl
  rw [hlength]
  unfold monthClock
  omega

/-- Moments are in the order of their months, and in a month in the order of its days and times. -/
theorem moment_lt_iff {later : ParsedDateTimeParts} (hdate : parts.date.Valid)
    (htime : parts.TimeValid) (hdate' : later.date.Valid) (htime' : later.TimeValid) :
    parts.moment < later.moment ↔ parts.date.months < later.date.months ∨
      parts.date.months=later.date.months ∧ parts.monthClock < later.monthClock := by
  have hclock := monthClock_bounds hdate htime
  have hclock' := monthClock_bounds hdate' htime'
  rw [moment_eq hdate,moment_eq hdate']
  rcases lt_trichotomy parts.date.months later.date.months with hlt | heq | hgt
  · have hstart := monthStart_lt hlt
    omega
  · rw [heq]
    omega
  · have hstart := monthStart_lt hgt
    omega

/-- A moment is one date with one time of day. -/
theorem atMoment_eq_iff (hdate : parts.date.Valid) (htime : parts.TimeValid) {moment : ℤ} :
    atMoment moment=parts ↔ moment=parts.moment := by
  constructor
  · rintro rfl
    exact (moment_atMoment moment).symm
  · rintro rfl
    exact atMoment_eq hdate htime

end ParsedDateTimeParts

end RustSql
