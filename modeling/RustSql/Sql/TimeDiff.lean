import RustSql.Common.DateTimes

/-!
# `TIMEDIFF`

The difference of two date-times is taken field by field, with a borrow wherever a field comes
out below zero. A borrowed month has the length of the month before the later date, which is
not always enough, and for a negative difference is not always the month that is given back.
-/

namespace RustSql.Sql

open ParsedDateTimeParts

/-! ## The code -/

/-- `compare_date_time_parts`. -/
def compareDateTimeParts (left right : ParsedDateTimeParts) : Ordering :=
  (compare left.year right.year).then <| (compare left.month right.month).then <|
    (compare left.day right.day).then <| (compare left.hour right.hour).then <|
    (compare left.minute right.minute).then <| (compare left.second right.second).then <|
    compare left.millisecond right.millisecond

/-- `previous_month`. -/
def previousMonth (year month : ℤ) : Outcome (ℤ × ℤ) :=
  if month=1 then do
    let year ← exactI64 (year-1)
    .ok (year,12)
  else .ok (year,month-1)

/-- The year of the month after a month. -/
def nextMonthYear (year month : ℤ) : Outcome ℤ := if month=12 then exactI64 (year+1) else .ok year

/-- `days_in_month`. -/
def daysInMonth (year month : ℤ) : Outcome ℤ := do
  let nextYear ← nextMonthYear year month
  let next ← daysFromCivilI64 ⟨nextYear,if month=12 then 1 else month+1,1⟩
  let first ← daysFromCivilI64 ⟨year,month,1⟩
  exactI64 (next-first)

/-- The fields of a difference. -/
structure TimeDifference where
  years : ℤ
  months : ℤ
  days : ℤ
  hours : ℤ
  minutes : ℤ
  seconds : ℤ
  millis : ℤ
  deriving DecidableEq

/-- A field below zero takes one from the field above it. -/
def borrow (size low high : ℤ) : ℤ × ℤ := if low < 0 then (low+size,high-1) else (low,high)

/-- Days below zero take the days of the month before. -/
def borrowMonth (stop : ParsedDateTimeParts) (days months : ℤ) : Outcome (ℤ × ℤ) :=
  if days < 0 then do
    let (year,month) ← previousMonth stop.year stop.month
    let length ← daysInMonth year month
    .ok (days+length,months-1)
  else .ok (days,months)

/-- `sqlite_timediff_calendar_fields`, before the fields are printed. The years are the only
difference that can leave the 64-bit integers. -/
def timediffCalendarFields (start stop : ParsedDateTimeParts) : Outcome TimeDifference := do
  let years ← exactI64 (stop.year-start.year)
  let (millis,seconds) := borrow 1000 (stop.millisecond-start.millisecond) (stop.second-start.second)
  let (seconds,minutes) := borrow 60 seconds (stop.minute-start.minute)
  let (minutes,hours) := borrow 60 minutes (stop.hour-start.hour)
  let (hours,days) := borrow 24 hours (stop.day-start.day)
  let (days,months) ← borrowMonth stop days (stop.month-start.month)
  let (months,years) := borrow 12 months years
  .ok ⟨years,months,days,hours,minutes,seconds,millis⟩

/-- `{:0width}` for an `i64`, whose sign counts as a digit. -/
def zeroPadded (width : ℕ) (value : ℤ) : String :=
  let sign := if value < 0 then ['-'] else []
  let digits := Nat.toDigits 10 value.natAbs
  String.ofList (sign++List.replicate (width-sign.length-digits.length) '0'++digits)

/-- The text of a difference. -/
def TimeDifference.text (fields : TimeDifference) (sign : Char) : String :=
  String.singleton sign++zeroPadded 4 fields.years++"-"++zeroPadded 2 fields.months++"-"++
    zeroPadded 2 fields.days++" "++zeroPadded 2 fields.hours++":"++zeroPadded 2 fields.minutes++
    ":"++zeroPadded 2 fields.seconds++"."++zeroPadded 3 fields.millis

/-- The sign and the fields of `sqlite_timediff_between`. -/
def timediffBetween (start stop : ParsedDateTimeParts) : Outcome (Char × TimeDifference) :=
  if compareDateTimeParts start stop=.gt then do
    let fields ← timediffCalendarFields stop start
    .ok ('-',fields)
  else do
    let fields ← timediffCalendarFields start stop
    .ok ('+',fields)

/-- `sqlite_timediff_between`. -/
def sqliteTimediffBetween (start stop : ParsedDateTimeParts) : Outcome String := do
  let (sign,fields) ← timediffBetween start stop
  .ok (fields.text sign)

/-! ## What a difference is -/

/-- The fields in their ranges. -/
structure TimeDifference.InRange (fields : TimeDifference) : Prop where
  years : 0 ≤ fields.years
  months : 0 ≤ fields.months ∧ fields.months ≤ 11
  days : 0 ≤ fields.days ∧ fields.days ≤ 30
  hours : 0 ≤ fields.hours ∧ fields.hours ≤ 23
  minutes : 0 ≤ fields.minutes ∧ fields.minutes ≤ 59
  seconds : 0 ≤ fields.seconds ∧ fields.seconds ≤ 59
  millis : 0 ≤ fields.millis ∧ fields.millis ≤ 999

/-- The years and months of a difference, in months. -/
def TimeDifference.allMonths (fields : TimeDifference) : ℤ := 12*fields.years+fields.months

/-- The days and the time of a difference, in milliseconds. -/
def TimeDifference.allMillis (fields : TimeDifference) : ℤ :=
  (((fields.days*24+fields.hours)*60+fields.minutes)*60+fields.seconds)*1000+fields.millis

/-- Months go by the calendar, with the day counted on from the first of the month that is
reached; the rest is exact. -/
def shift (parts : ParsedDateTimeParts) (months millis : ℤ) : ParsedDateTimeParts :=
  atMoment (((monthStart (parts.date.months+months)).number+parts.day-1)*86400000+parts.clock+millis)

/-- `TIMEDIFF` prints fields in their ranges, with the right sign, that lead from `start` to
`stop`. -/
def DifferenceRight (start stop : ParsedDateTimeParts) : Prop :=
  ∃ sign fields, timediffBetween start stop=.ok (sign,fields) ∧
    sqliteTimediffBetween start stop=.ok (fields.text sign) ∧ fields.InRange ∧
    (sign= '-' ↔ stop.moment < start.moment) ∧
    stop=if sign= '-' then shift start (-fields.allMonths) (-fields.allMillis)
      else shift start fields.allMonths fields.allMillis

/-! ## When it is one -/

/-- The days that the code counts in a month: in the February of some years before the year 0 one
too many or one too few. -/
def countedLength (months : ℤ) : ℤ :=
  lengthOf months+
    if months%12=1 ∧ months/12 < 0 then
      if months/12%400=399 then 1 else if months/12%400=0 then -1 else 0
    else 0

/-- The borrows of a difference come out even. `lent` is the month that is given back. -/
structure BorrowFits (earlier later : ParsedDateTimeParts) (lent : ℤ) : Prop where
  first : DaysFit (monthStart later.date.months)
  before : DaysFit (monthStart (later.date.months-1))
  same : countedLength (later.date.months-1)=lengthOf lent
  enough : earlier.monthClock ≤ later.monthClock+countedLength (later.date.months-1)*86400000

/-- The difference of two date-times, the second not before the first, comes out even. -/
def DifferenceFits (earlier later : ParsedDateTimeParts) (lent : ℤ) : Prop :=
  later.year-earlier.year < 2^63 ∧
    (later.monthClock < earlier.monthClock → BorrowFits earlier later lent)

/-- The month that is given back to a date-time is the month before the later one, or the month of
the earlier one where months are taken away. -/
def timediffFits (start stop : ParsedDateTimeParts) : Prop :=
  if stop.moment < start.moment then DifferenceFits stop start stop.date.months
  else DifferenceFits start stop (stop.date.months-1)

/-! ## Fields -/

/-- The later moment compares greater. -/
theorem compareDateTimeParts_gt {left right : ParsedDateTimeParts} (hleft : left.Valid)
    (hright : right.Valid) :
    compareDateTimeParts left right=.gt ↔ right.moment < left.moment := by
  rw [moment_lt_iff hright.date hright.time hleft.date hleft.time]
  obtain ⟨-,⟨hlow,hhigh,-,-⟩,hhour,hminute,hsecond,hmilli⟩ := hleft
  obtain ⟨-,⟨hlow',hhigh',-,-⟩,hhour',hminute',hsecond',hmilli'⟩ := hright
  simp only [date] at hlow hhigh hlow' hhigh'
  simp only [compareDateTimeParts,Ordering.then_eq_gt,compare_gt_iff_gt,compare_eq_iff_eq,
    Date.months,date,monthClock,clock]
  omega

/-- What is borrowed leaves a remainder. -/
theorem borrow_eq {size low : ℤ} (hlow : -size ≤ low) (hhigh : low < size) (high : ℤ) :
    borrow size low high=(low%size,high+low/size) := by
  unfold borrow
  split_ifs with h
  · have hsize : 0 < size := by omega
    obtain ⟨hdiv,hmod⟩ := (@Int.ediv_emod_unique low size (low+size) (-1) hsize).mpr
      ⟨by ring,by omega,by omega⟩
    rw [hdiv,hmod]
    rfl
  · have hpos : 0 ≤ low := by omega
    rw [Int.emod_eq_of_lt hpos hhigh,Int.ediv_eq_zero_of_lt hpos hhigh,add_zero]

/-- All fields below the months from the difference of the times of day. -/
theorem timediffCalendarFields_eq {start stop : ParsedDateTimeParts} (hstart : start.TimeValid)
    (hstop : stop.TimeValid) :
    timediffCalendarFields start stop=(do
      let years ← exactI64 (stop.year-start.year)
      let millis := stop.clock-start.clock
      let (days,months) ← borrowMonth stop (stop.day-start.day+millis/86400000)
        (stop.month-start.month)
      let (months,years) := borrow 12 months years
      .ok ⟨years,months,days,millis%86400000/3600000,millis%3600000/60000,millis%60000/1000,
        millis%1000⟩) := by
  obtain ⟨hhour,hminute,hsecond,hmilli⟩ := hstart
  obtain ⟨hhour',hminute',hsecond',hmilli'⟩ := hstop
  obtain ⟨millis,hmillis⟩ : ∃ millis, millis=stop.clock-start.clock := ⟨_,rfl⟩
  have hfirst := @borrow_eq 1000 (stop.millisecond-start.millisecond) (by omega) (by omega)
    (stop.second-start.second)
  have hclock : millis=(((stop.hour-start.hour)*60+(stop.minute-start.minute))*60+
      (stop.second-start.second))*1000+(stop.millisecond-start.millisecond) := by
    rw [hmillis,clock,clock]
    ring
  have hsecond := @borrow_eq 60 (stop.second-start.second+(stop.millisecond-start.millisecond)/1000)
    (by omega) (by omega) (stop.minute-start.minute)
  have hthird := @borrow_eq 60 (stop.minute-start.minute+
    (stop.second-start.second+(stop.millisecond-start.millisecond)/1000)/60) (by omega) (by omega)
    (stop.hour-start.hour)
  have hfourth := @borrow_eq 24 (stop.hour-start.hour+(stop.minute-start.minute+
    (stop.second-start.second+(stop.millisecond-start.millisecond)/1000)/60)/60)
    (by omega) (by omega) (stop.day-start.day)
  unfold timediffCalendarFields
  rw [←hmillis]
  simp only [hfirst,hsecond,hthird,hfourth]
  have hdays : stop.day-start.day+(stop.hour-start.hour+(stop.minute-start.minute+
      (stop.second-start.second+(stop.millisecond-start.millisecond)/1000)/60)/60)/24=
      stop.day-start.day+millis/86400000 := by omega
  have hhours : (stop.hour-start.hour+(stop.minute-start.minute+
      (stop.second-start.second+(stop.millisecond-start.millisecond)/1000)/60)/60)%24=
      millis%86400000/3600000 := by omega
  have hminutes : (stop.minute-start.minute+
      (stop.second-start.second+(stop.millisecond-start.millisecond)/1000)/60)%60=
      millis%3600000/60000 := by omega
  have hseconds : (stop.second-start.second+(stop.millisecond-start.millisecond)/1000)%60=
      millis%60000/1000 := by omega
  have hthousandths : (stop.millisecond-start.millisecond)%1000=millis%1000 := by omega
  rw [hdays,hhours,hminutes,hseconds,hthousandths]

/-! ## The borrowed month -/

/-- Days that fit have years that fit. -/
theorem daysFit_year {months : ℤ} (h : DaysFit (monthStart months)) :
    -2^56 ≤ months/12 ∧ months/12 ≤ 2^56 := by
  obtain ⟨hmin,hmax⟩ := h
  obtain ⟨hday,hday'⟩ := (monthStart_valid months).marchDay_bounds
  have hyear : (monthStart months).marchYear=months/12-if months%12+1 ≤ 2 then 1 else 0 := rfl
  have hnumber := (monthStart months).number_eq
  rw [daysFromCivil_eq] at hmin hmax
  rw [hyear] at hnumber hday'
  unfold daysBefore at hnumber hday'
  split_ifs at hmin hmax hnumber hday' <;> omega

/-- The code counts the days of a month from its first day to the first of the next. -/
theorem daysFromCivil_month (months : ℤ) :
    daysFromCivil (monthStart (months+1))-daysFromCivil (monthStart months)=
      countedLength months := by
  have hnumber := number_monthStart_succ months
  rw [daysFromCivil_eq,daysFromCivil_eq,hnumber]
  unfold countedLength monthStart Date.marchYear
  dsimp only
  split_ifs <;> omega

/-- A month counts 27 to 31 days. -/
theorem countedLength_bounds (months : ℤ) : 27 ≤ countedLength months ∧ countedLength months ≤ 31 := by
  unfold countedLength lengthOf monthLength
  split_ifs <;> omega

/-- The first of a month passes the check. -/
theorem monthStart_checked (months : ℤ) : (monthStart months).Checked :=
  (monthStart_valid months).checked

/-- A month is counted when its first day and the first day of the next are. -/
theorem daysInMonth_iff {months length : ℤ} :
    daysInMonth (months/12) (months%12+1)=.ok length ↔
      DaysFit (monthStart (months+1)) ∧ DaysFit (monthStart months) ∧
        length=countedLength months := by
  have hnext : ∀ year, year=(months+1)/12 →
      (⟨year,if months%12+1=12 then 1 else months%12+1+1,1⟩ : Date)=monthStart (months+1) := by
    rintro year rfl
    unfold monthStart
    congr 1
    split_ifs <;> omega
  have hyear : ∀ year, nextMonthYear (months/12) (months%12+1)=.ok year → year=(months+1)/12 := by
    intro year h
    unfold nextMonthYear at h
    split_ifs at h
    · rw [(exactI64_ok h).2]
      omega
    · rw [←Outcome.ok.inj h]
      omega
  have hfirst : (⟨months/12,months%12+1,1⟩ : Date)=monthStart months := rfl
  unfold daysInMonth
  rw [hfirst]
  constructor
  · intro h
    obtain ⟨year,hok,h⟩ := Outcome.bind_ok_inv h
    rw [hnext year (hyear year hok)] at h
    obtain ⟨next,hdays,h⟩ := Outcome.bind_ok_inv h
    obtain ⟨first,hdays',h⟩ := Outcome.bind_ok_inv h
    obtain ⟨hfit,rfl⟩ := daysFromCivilI64_ok hdays
    obtain ⟨hfit',rfl⟩ := daysFromCivilI64_ok hdays'
    obtain ⟨-,rfl⟩ := exactI64_ok h
    exact ⟨hfit,hfit',daysFromCivil_month months⟩
  · rintro ⟨hfit,hfit',rfl⟩
    obtain ⟨hmin,hmax⟩ := daysFit_year hfit'
    obtain ⟨hshort,hlong⟩ := countedLength_bounds months
    have hok : nextMonthYear (months/12) (months%12+1)=.ok ((months+1)/12) := by
      unfold nextMonthYear
      split_ifs
      · rw [exactI64_fits (by constructor <;> omega)]
        congr 1
        omega
      · congr 1
        omega
    rw [hok,Outcome.bind_ok,hnext _ rfl,daysFromCivilI64_fits (monthStart_checked _) hfit,
      Outcome.bind_ok,daysFromCivilI64_fits (monthStart_checked _) hfit',Outcome.bind_ok,
      daysFromCivil_month,exactI64_fits (by constructor <;> omega)]

/-- The month before. -/
theorem previousMonth_ok {parts : ParsedDateTimeParts} (h : parts.date.Valid) {found : ℤ × ℤ}
    (hfound : previousMonth parts.year parts.month=.ok found) :
    found=((parts.date.months-1)/12,(parts.date.months-1)%12+1) := by
  obtain ⟨hlow,hhigh,-,-⟩ := h
  simp only [date] at hlow hhigh
  unfold previousMonth at hfound
  simp only [Date.months,date]
  split_ifs at hfound
  · obtain ⟨year,hyear,hfound⟩ := Outcome.bind_ok_inv hfound
    obtain ⟨-,rfl⟩ := exactI64_ok hyear
    obtain rfl := Outcome.ok.inj hfound
    refine Prod.ext ?_ ?_ <;> dsimp only <;> omega
  · obtain rfl := Outcome.ok.inj hfound
    refine Prod.ext ?_ ?_ <;> dsimp only <;> omega

/-- The year of the month before fits when its days do. -/
theorem previousMonth_fits {parts : ParsedDateTimeParts} (h : parts.date.Valid)
    (hfit : DaysFit (monthStart (parts.date.months-1))) :
    previousMonth parts.year parts.month=
      .ok ((parts.date.months-1)/12,(parts.date.months-1)%12+1) := by
  obtain ⟨hmin,hmax⟩ := daysFit_year hfit
  have hdate := h
  obtain ⟨hlow,hhigh,-,-⟩ := h
  simp only [date] at hlow hhigh
  simp only [Date.months,date] at hmin hmax
  have hok : ∃ found, previousMonth parts.year parts.month=.ok found := by
    unfold previousMonth
    split_ifs
    · rw [exactI64_fits (by constructor <;> omega)]
      exact ⟨_,rfl⟩
    · exact ⟨_,rfl⟩
  obtain ⟨found,hfound⟩ := hok
  rw [hfound,previousMonth_ok hdate hfound]

/-- What is borrowed for days below zero. -/
theorem borrowMonth_iff {stop : ParsedDateTimeParts} (hstop : stop.date.Valid)
    {days months : ℤ} {found : ℤ × ℤ} :
    borrowMonth stop days months=.ok found ↔
      0 ≤ days ∧ found=(days,months) ∨
        days < 0 ∧ DaysFit (monthStart stop.date.months) ∧
          DaysFit (monthStart (stop.date.months-1)) ∧
          found=(days+countedLength (stop.date.months-1),months-1) := by
  have hsucc : stop.date.months-1+1=stop.date.months := by ring
  unfold borrowMonth
  split_ifs with hneg
  · constructor
    · intro h
      obtain ⟨month,hmonth,h⟩ := Outcome.bind_ok_inv h
      obtain rfl := previousMonth_ok hstop hmonth
      obtain ⟨length,hlength,h⟩ := Outcome.bind_ok_inv h
      obtain ⟨hfit,hfit',rfl⟩ := daysInMonth_iff.mp hlength
      rw [hsucc] at hfit
      exact .inr ⟨hneg,hfit,hfit',(Outcome.ok.inj h).symm⟩
    · rintro (⟨hpos,-⟩ | ⟨-,hfit,hfit',rfl⟩)
      · omega
      · rw [previousMonth_fits hstop hfit',Outcome.bind_ok]
        dsimp only
        rw [daysInMonth_iff.mpr ⟨hsucc.symm▸hfit,hfit',rfl⟩]
        rfl
  · constructor
    · intro h
      exact .inl ⟨by omega,(Outcome.ok.inj h).symm⟩
    · rintro (⟨-,rfl⟩ | ⟨hneg',-⟩)
      · rfl
      · omega

/-! ## Both orders -/

section Ordered

variable {earlier later : ParsedDateTimeParts}

/-- A month is lent where the day of the month and the time of day go back. -/
def lends (earlier later : ParsedDateTimeParts) : ℤ :=
  if later.monthClock < earlier.monthClock then 1 else 0

/-- What the fields of a difference come to. -/
structure Comes (earlier later : ParsedDateTimeParts) (fields : TimeDifference) : Prop where
  months : fields.allMonths=later.date.months-earlier.date.months-lends earlier later
  millis : fields.allMillis=later.monthClock-earlier.monthClock+
    lends earlier later*countedLength (later.date.months-1)*86400000
  range : fields.InRange ↔ 0 ≤ fields.allMillis

/-- The sums that the fields are made from stay in the 64-bit integers. -/
def Counts (earlier later : ParsedDateTimeParts) : Prop :=
  later.year-earlier.year < 2^63 ∧
    (later.monthClock < earlier.monthClock → DaysFit (monthStart later.date.months) ∧
      DaysFit (monthStart (later.date.months-1)))

/-- A month has 31 days at most. -/
theorem lengthOf_le (months : ℤ) : lengthOf months ≤ 31 := by
  unfold lengthOf monthLength
  split_ifs <;> omega

/-- The later moment is in a later month, or later in the same. -/
theorem not_before (hearlier : earlier.Valid) (hlater : later.Valid)
    (hle : earlier.moment ≤ later.moment) : earlier.date.months < later.date.months ∨
      earlier.date.months=later.date.months ∧ earlier.monthClock ≤ later.monthClock := by
  have hlt := (moment_lt_iff hlater.date hlater.time hearlier.date hearlier.time).not.mp hle.not_gt
  omega

/-- Fields counted so lead from the earlier moment to the later. -/
theorem fields_come (hearlier : earlier.Valid) (hlater : later.Valid)
    (hle : earlier.moment ≤ later.moment) {days months lent : ℤ}
    (hlent : lent=lends earlier later*countedLength (later.date.months-1))
    (hdays : days=later.day-earlier.day+(later.clock-earlier.clock)/86400000+lent)
    (hmonths : months=later.month-earlier.month-lends earlier later) :
    Comes earlier later ⟨(borrow 12 months (later.year-earlier.year)).2,
      (borrow 12 months (later.year-earlier.year)).1,days,
      (later.clock-earlier.clock)%86400000/3600000,(later.clock-earlier.clock)%3600000/60000,
      (later.clock-earlier.clock)%60000/1000,(later.clock-earlier.clock)%1000⟩ := by
  have horder := not_before hearlier hlater hle
  obtain ⟨hclock,-⟩ := monthClock_bounds hearlier.date hearlier.time
  obtain ⟨-,hclock'⟩ := monthClock_bounds hlater.date hlater.time
  have hlength := lengthOf_le later.date.months
  obtain ⟨-,hcounted⟩ := countedLength_bounds (later.date.months-1)
  obtain ⟨hlow,hhigh,-,-⟩ := hearlier.date
  obtain ⟨hlow',hhigh',-,-⟩ := hlater.date
  have hbetween : later.monthClock-earlier.monthClock=
      (later.day-earlier.day)*86400000+(later.clock-earlier.clock) := by
    rw [monthClock,monthClock]
    ring
  have hcases : lends earlier later=1 ∧ lent=countedLength (later.date.months-1) ∧
      later.monthClock < earlier.monthClock ∨ lends earlier later=0 ∧ lent=0 ∧
      earlier.monthClock ≤ later.monthClock := by
    rw [hlent]
    unfold lends
    split_ifs with h
    · exact .inl ⟨rfl,one_mul _,h⟩
    · exact .inr ⟨rfl,zero_mul _,not_lt.mp h⟩
  simp only [date,Date.months] at *
  rw [borrow_eq (by omega) (by omega)]
  refine ⟨?_,?_,?_⟩
  · simp only [TimeDifference.allMonths,Date.months,date]
    omega
  · simp only [TimeDifference.allMillis,Date.months,date]
    rw [←hlent]
    omega
  · constructor
    · rintro ⟨-,-,⟨hpos,-⟩,-⟩
      simp only [TimeDifference.allMillis] at hpos ⊢
      omega
    · intro hpos
      simp only [TimeDifference.allMillis] at hpos
      refine ⟨?_,?_,?_,?_,?_,?_,?_⟩ <;>
        · dsimp only
          omega

/-- The days are below zero exactly when a month is lent. -/
theorem days_neg_iff : later.day-earlier.day+(later.clock-earlier.clock)/86400000 < 0 ↔
    later.monthClock < earlier.monthClock := by
  unfold monthClock
  omega

/-- Fields that are found are counted so. -/
theorem timediffCalendarFields_ok (hearlier : earlier.Valid) (hlater : later.Valid)
    (hle : earlier.moment ≤ later.moment) {fields : TimeDifference}
    (h : timediffCalendarFields earlier later=.ok fields) :
    Counts earlier later ∧ Comes earlier later fields := by
  rw [timediffCalendarFields_eq hearlier.time hlater.time] at h
  obtain ⟨years,hyears,h⟩ := Outcome.bind_ok_inv h
  obtain ⟨hfits,rfl⟩ := exactI64_ok hyears
  obtain ⟨found,hfound,h⟩ := Outcome.bind_ok_inv h
  obtain rfl := Outcome.ok.inj h
  rw [borrowMonth_iff hlater.date,days_neg_iff] at hfound
  rcases hfound with ⟨hpos,rfl⟩ | ⟨hneg,hfit,hfit',rfl⟩
  · have hnone : ¬later.monthClock < earlier.monthClock := fun hneg => by
      have hdays := days_neg_iff.mpr hneg
      omega
    have hlends : lends earlier later=0 := if_neg hnone
    exact ⟨⟨hfits.2,fun hneg => absurd hneg hnone⟩,
      fields_come hearlier hlater hle (by rw [hlends,zero_mul]) (add_zero _).symm
        (by rw [hlends,sub_zero])⟩
  · have hlends : lends earlier later=1 := if_pos hneg
    exact ⟨⟨hfits.2,fun _ => ⟨hfit,hfit'⟩⟩,
      fields_come hearlier hlater hle (by rw [hlends,one_mul]) rfl (by rw [hlends])⟩

/-- Where the steps fit they are found. -/
theorem timediffCalendarFields_counts (hearlier : earlier.Valid) (hlater : later.Valid)
    (hle : earlier.moment ≤ later.moment) (h : Counts earlier later) :
    ∃ fields, timediffCalendarFields earlier later=.ok fields := by
  obtain ⟨hyears,hdays⟩ := h
  have horder := not_before hearlier hlater hle
  obtain ⟨hlow,hhigh,-,-⟩ := hearlier.date
  obtain ⟨hlow',hhigh',-,-⟩ := hlater.date
  simp only [date,Date.months] at hlow hhigh hlow' hhigh' horder
  have hfits : FitsI64 (later.year-earlier.year) := ⟨by omega,hyears⟩
  have hborrow : ∃ found, borrowMonth later
      (later.day-earlier.day+(later.clock-earlier.clock)/86400000)
      (later.month-earlier.month)=.ok found := by
    by_cases hneg : later.monthClock < earlier.monthClock
    · obtain ⟨hfit,hfit'⟩ := hdays hneg
      exact ⟨_,(borrowMonth_iff hlater.date).mpr
        (.inr ⟨days_neg_iff.mpr hneg,hfit,hfit',rfl⟩)⟩
    · exact ⟨_,(borrowMonth_iff hlater.date).mpr
        (.inl ⟨not_lt.mp fun hlt => hneg (days_neg_iff.mp hlt),rfl⟩)⟩
  obtain ⟨found,hfound⟩ := hborrow
  rw [timediffCalendarFields_eq hearlier.time hlater.time,exactI64_fits hfits,Outcome.bind_ok]
  dsimp only
  rw [hfound,Outcome.bind_ok]
  exact ⟨_,rfl⟩

/-- Forward, the month before the later date is given back. -/
theorem shift_forward_iff (hlater : later.Valid) {fields : TimeDifference}
    (h : Comes earlier later fields) :
    later=shift earlier fields.allMonths fields.allMillis ↔
      (later.monthClock < earlier.monthClock →
        countedLength (later.date.months-1)=lengthOf (later.date.months-1)) := by
  have hmonth := number_monthStart_succ (later.date.months-1)
  rw [sub_add_cancel] at hmonth
  have hclock : (earlier.day-1)*86400000+earlier.clock=earlier.monthClock := rfl
  rw [shift,eq_comm,atMoment_eq_iff hlater.date hlater.time,moment_eq hlater.date,h.months,h.millis]
  unfold lends
  split_ifs with hneg
  · have hreached : earlier.date.months+(later.date.months-earlier.date.months-1)=
        later.date.months-1 := by ring
    rw [hreached,one_mul]
    constructor
    · intro heq _
      omega
    · intro hlength
      have hsame := hlength hneg
      omega
  · have hreached : earlier.date.months+(later.date.months-earlier.date.months-0)=
        later.date.months := by ring
    rw [hreached,zero_mul,zero_mul]
    constructor
    · intro _ hlt
      exact absurd hlt hneg
    · intro _
      omega

/-- Backward, the month of the earlier date is given back. -/
theorem shift_backward_iff (hearlier : earlier.Valid) {fields : TimeDifference}
    (h : Comes earlier later fields) :
    earlier=shift later (-fields.allMonths) (-fields.allMillis) ↔
      (later.monthClock < earlier.monthClock →
        countedLength (later.date.months-1)=lengthOf earlier.date.months) := by
  have hmonth := number_monthStart_succ earlier.date.months
  have hclock : (later.day-1)*86400000+later.clock=later.monthClock := rfl
  rw [shift,eq_comm,atMoment_eq_iff hearlier.date hearlier.time,moment_eq hearlier.date,h.months,
    h.millis]
  unfold lends
  split_ifs with hneg
  · have hreached : later.date.months+-(later.date.months-earlier.date.months-1)=
        earlier.date.months+1 := by ring
    rw [hreached,hmonth,one_mul]
    constructor
    · intro heq _
      omega
    · intro hlength
      have hsame := hlength hneg
      omega
  · have hreached : later.date.months+-(later.date.months-earlier.date.months-0)=
        earlier.date.months := by ring
    rw [hreached,zero_mul,zero_mul]
    constructor
    · intro _ hlt
      exact absurd hlt hneg
    · intro _
      omega

/-- The fields are in their ranges when what is lent is enough. -/
theorem inRange_iff {fields : TimeDifference} (h : Comes earlier later fields) :
    fields.InRange ↔ (later.monthClock < earlier.monthClock →
      earlier.monthClock ≤ later.monthClock+countedLength (later.date.months-1)*86400000) := by
  rw [h.range,h.millis]
  unfold lends
  split_ifs with hneg
  · rw [one_mul]
    constructor
    · intro hpos _
      omega
    · intro henough
      have hmonth := henough hneg
      omega
  · rw [zero_mul,zero_mul]
    constructor
    · intro _ hlt
      exact absurd hlt hneg
    · intro _
      omega

/-- A difference comes out even when its sums fit, what is lent is enough, and the month lent is
the one given back. -/
theorem differenceFits_iff {lent : ℤ} : DifferenceFits earlier later lent ↔
    Counts earlier later ∧
      (later.monthClock < earlier.monthClock →
        earlier.monthClock ≤ later.monthClock+countedLength (later.date.months-1)*86400000) ∧
      (later.monthClock < earlier.monthClock →
        countedLength (later.date.months-1)=lengthOf lent) := by
  constructor
  · rintro ⟨hyears,hborrow⟩
    exact ⟨⟨hyears,fun hneg => ⟨(hborrow hneg).first,(hborrow hneg).before⟩⟩,
      fun hneg => (hborrow hneg).enough,fun hneg => (hborrow hneg).same⟩
  · rintro ⟨⟨hyears,hdays⟩,henough,hsame⟩
    exact ⟨hyears,fun hneg => ⟨(hdays hneg).1,(hdays hneg).2,hsame hneg,henough hneg⟩⟩

end Ordered

/-- `TIMEDIFF` prints a difference that undoes itself exactly when no sum leaves the 64-bit integers
and, where a month is lent, its days are enough and are those of the month that is given back. -/
theorem timediff_iff {start stop : ParsedDateTimeParts} (hstart : start.Valid)
    (hstop : stop.Valid) : DifferenceRight start stop ↔ timediffFits start stop := by
  have horder := compareDateTimeParts_gt hstart hstop
  unfold DifferenceRight sqliteTimediffBetween timediffBetween timediffFits
  by_cases hback : stop.moment < start.moment
  · rw [if_pos (horder.mpr hback),if_pos hback,differenceFits_iff]
    constructor
    · rintro ⟨sign,fields,hfields,-,hrange,-,hshift⟩
      obtain ⟨found,hfound,hsame⟩ := Outcome.bind_ok_inv hfields
      obtain ⟨rfl,rfl⟩ := Prod.mk.inj (Outcome.ok.inj hsame)
      obtain ⟨hcounts,hcomes⟩ := timediffCalendarFields_ok hstop hstart hback.le hfound
      rw [if_pos rfl] at hshift
      exact ⟨hcounts,(inRange_iff hcomes).mp hrange,(shift_backward_iff hstop hcomes).mp hshift⟩
    · rintro ⟨hcounts,henough,hsame⟩
      obtain ⟨fields,hfields⟩ := timediffCalendarFields_counts hstop hstart hback.le hcounts
      obtain ⟨-,hcomes⟩ := timediffCalendarFields_ok hstop hstart hback.le hfields
      refine ⟨'-',fields,?_,?_,(inRange_iff hcomes).mpr henough,?_,?_⟩
      · rw [hfields,Outcome.bind_ok]
      · rw [hfields,Outcome.bind_ok,Outcome.bind_ok]
      · exact ⟨fun _ => hback,fun _ => rfl⟩
      · rw [if_pos rfl]
        exact (shift_backward_iff hstop hcomes).mpr hsame
  · have hle := not_lt.mp hback
    rw [if_neg fun h => hback (horder.mp h),if_neg hback,differenceFits_iff]
    constructor
    · rintro ⟨sign,fields,hfields,-,hrange,-,hshift⟩
      obtain ⟨found,hfound,hsame⟩ := Outcome.bind_ok_inv hfields
      obtain ⟨rfl,rfl⟩ := Prod.mk.inj (Outcome.ok.inj hsame)
      obtain ⟨hcounts,hcomes⟩ := timediffCalendarFields_ok hstart hstop hle hfound
      rw [if_neg (by decide)] at hshift
      exact ⟨hcounts,(inRange_iff hcomes).mp hrange,(shift_forward_iff hstop hcomes).mp hshift⟩
    · rintro ⟨hcounts,henough,hsame⟩
      obtain ⟨fields,hfields⟩ := timediffCalendarFields_counts hstart hstop hle hcounts
      obtain ⟨-,hcomes⟩ := timediffCalendarFields_ok hstart hstop hle hfields
      refine ⟨'+',fields,?_,?_,(inRange_iff hcomes).mpr henough,?_,?_⟩
      · rw [hfields,Outcome.bind_ok]
      · rw [hfields,Outcome.bind_ok,Outcome.bind_ok]
      · exact ⟨fun h => absurd h (by decide),fun h => absurd h hback⟩
      · rw [if_neg (by decide)]
        exact (shift_forward_iff hstop hcomes).mpr hsame

/-- Midnight at the beginning of a day. -/
def midnight (year month day : ℤ) : ParsedDateTimeParts := ⟨year,month,day,0,0,0,0⟩

/-- Midnight of a date is valid. -/
theorem midnight_valid {year month day : ℤ} (hyear : FitsI64 year)
    (hdate : (⟨year,month,day⟩ : Date).Valid) : (midnight year month day).Valid :=
  ⟨hyear,hdate,⟨le_rfl,show (0 : ℤ) ≤ 23 by norm_num⟩,⟨le_rfl,show (0 : ℤ) ≤ 59 by norm_num⟩,
    ⟨le_rfl,show (0 : ℤ) ≤ 59 by norm_num⟩,⟨le_rfl,show (0 : ℤ) ≤ 999 by norm_num⟩⟩

/-- From the 15th of January 2023 to the 10th of March 2024, and `+0001-01-24 00:00:00.000` back. -/
theorem timediff_iff_leap_year :
    DifferenceRight (midnight 2023 1 15) (midnight 2024 3 10) := by
  refine (timediff_iff (midnight_valid (by decide) ⟨by decide,by decide,by decide,by decide⟩)
    (midnight_valid (by decide) ⟨by decide,by decide,by decide,by decide⟩)).mpr ?_
  have hforward : ¬(midnight 2024 3 10).moment < (midnight 2023 1 15).moment := by decide
  rw [timediffFits,if_neg hforward]
  exact ⟨by decide,fun _ => ⟨by decide,by decide,by decide,by decide⟩⟩

example : sqliteTimediffBetween (midnight 2023 1 15) (midnight 2024 3 10)=
    .ok "+0001-01-24 00:00:00.000" := by
  decide

/-- From the 31st of January to the first of March 2023 the days come out at minus two. -/
theorem negative_days : ¬DifferenceRight (midnight 2023 1 31) (midnight 2023 3 1) := by
  rintro ⟨sign,fields,hfields,-,hrange,-⟩
  have hcode : timediffBetween (midnight 2023 1 31) (midnight 2023 3 1)=
      .ok ('+',⟨0,1,-2,0,0,0,0⟩) := by decide
  obtain ⟨-,rfl⟩ := Prod.mk.inj (Outcome.ok.inj (hcode.symm.trans hfields))
  exact absurd hrange.days.1 (by decide)

end RustSql.Sql
