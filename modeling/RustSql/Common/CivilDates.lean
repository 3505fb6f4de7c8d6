import Mathlib.Tactic

/-!
# Dates of day numbers

`civil_from_days` and `days_from_civil` against the calendar, in which every day has a next one.
The era of a day before the first of March of the year 0 is one too low, but for the last day
of an era.
-/

namespace RustSql

/-- A date: the tuple of year, month and day. -/
structure Date where
  year : ℤ
  month : ℤ
  day : ℤ
  deriving DecidableEq

/-- `civil_from_days`, the same in `common/types.rs` and in the executor. The first sum is the
only one that can leave the 64-bit integers. -/
def civilFromDays (daysSinceUnixEpoch : ℤ) : Date :=
  let z := daysSinceUnixEpoch+719468
  let era := (if 0 ≤ z then z else z-146096)/146097
  let doe := z-era*146097
  let yoe := (doe-doe/1460+doe/36524-doe/146096)/365
  let year := yoe+era*400
  let doy := doe-(365*yoe+yoe/4-yoe/100)
  let mp := (5*doy+2)/153
  let day := doy-(153*mp+2)/5+1
  let month := mp+if mp < 10 then 3 else -9
  ⟨if month ≤ 2 then year+1 else year,month,day⟩

/-- `days_from_civil`. -/
def daysFromCivil (date : Date) : ℤ :=
  let adjustedYear := date.year-if date.month ≤ 2 then 1 else 0
  let era := (if 0 ≤ adjustedYear then adjustedYear else adjustedYear-399)/400
  let yoe := adjustedYear-era*400
  let mp := date.month+if 2 < date.month then -3 else 9
  let doy := (153*mp+2)/5+date.day-1
  let doe := yoe*365+yoe/4-yoe/100+doy
  era*146097+doe-719468

/-! ## The calendar -/

/-- A year with a leap day. -/
def IsLeap (year : ℤ) : Prop := year%4=0 ∧ (year%100≠0 ∨ year%400=0)

instance (year : ℤ) : Decidable (IsLeap year) :=
  inferInstanceAs (Decidable (_ ∧ _))

/-- The days of a month. -/
def monthLength (year month : ℤ) : ℤ :=
  if month=2 then if IsLeap year then 29 else 28
  else if month=4 ∨ month=6 ∨ month=9 ∨ month=11 then 30
  else 31

/-- A date of the calendar. -/
structure Date.Valid (date : Date) : Prop where
  month_pos : 1 ≤ date.month
  month_le : date.month ≤ 12
  day_pos : 1 ≤ date.day
  day_le : date.day ≤ monthLength date.year date.month

/-- The date after a date. -/
def Date.next (date : Date) : Date :=
  if date.day < monthLength date.year date.month then ⟨date.year,date.month,date.day+1⟩
  else if date.month < 12 then ⟨date.year,date.month+1,1⟩
  else ⟨date.year+1,1,1⟩

/-- The days from the first of January 1970 to a date, counted day by day. -/
inductive DayCount : Date → ℤ → Prop
  | epoch : DayCount ⟨1970,1,1⟩ 0
  | next {date : Date} {days : ℤ} : DayCount date days → DayCount date.next (days+1)
  | previous {date : Date} {days : ℤ} : date.Valid → DayCount date.next (days+1) →
      DayCount date days

/-! ## Day numbers -/

/-- The year that begins with the March before a date. -/
def Date.marchYear (date : Date) : ℤ := date.year-if date.month ≤ 2 then 1 else 0

/-- The month, counted from March. -/
def Date.marchMonth (date : Date) : ℤ := date.month+if 2 < date.month then -3 else 9

/-- The number of a date, by the leap years before it. -/
def Date.number (date : Date) : ℤ :=
  365*date.marchYear+date.marchYear/4-date.marchYear/100+date.marchYear/400+
    (153*date.marchMonth+2)/5+date.day-1-719468

/-- A month has 28 days at least. -/
theorem monthLength_pos (year month : ℤ) : 28 ≤ monthLength year month := by
  unfold monthLength
  split_ifs <;> omega

variable {date : Date} {doe century cycle year day doy days : ℤ}

/-- The next day is a date. -/
theorem Date.Valid.next (h : date.Valid) : date.next.Valid := by
  obtain ⟨hlow,hhigh,hpos,hle⟩ := h
  unfold Date.next
  split_ifs with hday hmonth
  · exact ⟨hlow,hhigh,by dsimp only; omega,by dsimp only; omega⟩
  · have hlength := monthLength_pos date.year (date.month+1)
    exact ⟨by dsimp only; omega,by dsimp only; omega,le_rfl,by dsimp only; omega⟩
  · have hlength := monthLength_pos (date.year+1) 1
    exact ⟨le_rfl,by norm_num,le_rfl,by dsimp only; omega⟩

/-- The next date has the next number. -/
theorem Date.Valid.number_next (h : date.Valid) :
    date.next.number=date.number+1 := by
  obtain ⟨year,month,day⟩ := date
  obtain ⟨hlow,hhigh,hpos,hle⟩ := h
  dsimp only at hlow hhigh hpos hle
  unfold Date.next Date.number Date.marchYear Date.marchMonth
  dsimp only
  by_cases hday : day < monthLength year month
  · rw [if_pos hday]
    dsimp only
    ring
  · have hlast : day=monthLength year month := by omega
    rw [if_neg hday]
    unfold monthLength IsLeap at hlast
    interval_cases month <;> norm_num at hlast ⊢ <;> (try split_ifs at hlast) <;> omega

/-! ## Eras -/

/-- The year of a day of an era, counted from March; also of the era after it. -/
def eraYear (doe : ℤ) : ℤ := (doe-doe/1460+doe/36524-doe/146096)/365

/-- The day of the year of a day of an era. -/
def eraDay (doe : ℤ) : ℤ := doe-(365*eraYear doe+eraYear doe/4-eraYear doe/100)

/-- The days of an era by centuries, leap cycles and years. -/
structure EraParts (doe century cycle year day : ℤ) : Prop where
  sum : doe=36524*century+1461*cycle+365*year+day
  century_bounds : 0 ≤ century ∧ century ≤ 3
  cycle_bounds : 0 ≤ cycle ∧ cycle ≤ 24
  year_bounds : 0 ≤ year ∧ year ≤ 3
  day_bounds : 0 ≤ day ∧ day ≤ 365
  last : day=365 → year=3 ∧ (cycle=24 → century=3)

/-- A day of an era has its parts. -/
theorem exists_eraParts (hlow : 0 ≤ doe) (hhigh : doe ≤ 146096) :
    ∃ century cycle year day, EraParts doe century cycle year day := by
  obtain ⟨century,hcentury⟩ : ∃ c, c=min (doe/36524) 3 := ⟨_,rfl⟩
  obtain ⟨cycle,hcycle⟩ : ∃ c, c=(doe-36524*century)/1461 := ⟨_,rfl⟩
  obtain ⟨year,hyear⟩ : ∃ y, y=min ((doe-36524*century-1461*cycle)/365) 3 := ⟨_,rfl⟩
  refine ⟨century,cycle,year,doe-36524*century-1461*cycle-365*year,?_,?_,?_,?_,?_,?_⟩ <;> omega

/-- The days of a century, where only the last century of an era has one more. -/
theorem EraParts.rest (h : EraParts doe century cycle year day) :
    0 ≤ 1461*cycle+365*year+day ∧ (1461*cycle+365*year+day ≤ 36523 ∨
      1461*cycle+365*year+day=36524 ∧ century=3) := by
  obtain ⟨hsum,hcentury,hcycle,hyear,hday,hlast⟩ := h
  refine ⟨by omega,?_⟩
  by_cases hfull : day=365 ∧ cycle=24
  · have hcentury := (hlast hfull.1).2 hfull.2
    omega
  · omega

/-- The year and the day of an era. -/
theorem EraParts.year_day (h : EraParts doe century cycle year day) :
    eraYear doe=100*century+4*cycle+year ∧ eraDay doe=day := by
  obtain ⟨hpos,hrest⟩ := h.rest
  obtain ⟨hsum,hcentury,hcycle,hyear,hday,hlast⟩ := h
  have hcenturies : doe/36524-doe/146096=century := by
    rcases hrest with hrest | ⟨hrest,rfl⟩
    · have hfirst : doe/36524=century := by omega
      have hsecond : doe/146096=0 := by omega
      omega
    · have hdoe : doe=146096 := by omega
      rw [hdoe]
      norm_num
  obtain ⟨extra,hextra⟩ : ∃ extra, extra=doe/1460-25*century-cycle := ⟨_,rfl⟩
  have hday : 0 ≤ day-extra ∧ day-extra ≤ 364 := by omega
  obtain ⟨number,hnumber⟩ : ∃ number, number=100*century+4*cycle+year := ⟨_,rfl⟩
  have hleaps : number/4=25*century+cycle := by omega
  have hskipped : number/100=century := by omega
  have hyears : eraYear doe=number := by
    have hdays : doe-doe/1460+doe/36524-doe/146096=365*number+(day-extra) := by omega
    rw [eraYear,hdays]
    omega
  refine ⟨hyears.trans hnumber,?_⟩
  rw [eraDay,hyears,hleaps,hskipped]
  omega

/-- A day counted from the era before is put into the era after it, within a year still. -/
theorem EraParts.year_day_late (h : EraParts doe century cycle year day) (hdoe : 0 < doe) :
    400 ≤ eraYear (146096+doe) ∧ eraYear (146096+doe) ≤ 799 ∧
      0 ≤ eraDay (146096+doe) ∧ eraDay (146096+doe) ≤ 366 := by
  obtain ⟨hpos,hrest⟩ := h.rest
  obtain ⟨hsum,hcentury,hcycle,hyear,hday,hlast⟩ := h
  have hcenturies : (146096+doe)/36524-(146096+doe)/146096=3+century := by
    rcases hrest with hrest | ⟨hrest,rfl⟩
    · have hfirst : (146096+doe)/36524=4+century := by omega
      have hsecond : (146096+doe)/146096=1 := by omega
      omega
    · have hlastday : doe=146096 := by omega
      rw [hlastday]
      norm_num
  obtain ⟨extra,hextra⟩ : ∃ extra, extra=(146096+doe)/1460-100-25*century-cycle := ⟨_,rfl⟩
  have hless : -1 ≤ day-1-extra ∧ day-1-extra ≤ 364 ∧ (day-1-extra=-1 → day=0) := by omega
  obtain ⟨number,hnumber⟩ : ∃ number, number=400+100*century+4*cycle+year := ⟨_,rfl⟩
  have hleaps : number/4=100+25*century+cycle := by omega
  have hskipped : number/100=4+century := by omega
  have hyears : eraYear (146096+doe)=number ∨ eraYear (146096+doe)=number-1 ∧ day=0 := by
    have hdays : 146096+doe-(146096+doe)/1460+(146096+doe)/36524-(146096+doe)/146096=
        365*number+(day-1-extra) := by omega
    rw [eraYear,hdays]
    omega
  have hstart : 146096+doe=365*number+number/4-number/100+day := by omega
  rcases hyears with hyears | ⟨hyears,hfirst⟩
  · rw [eraDay,hyears]
    omega
  · have hbefore : (number-1)/4=number/4 ∨ (number-1)/4=number/4-1 := by omega
    have hbefore' : (number-1)/100=number/100 ∨ (number-1)/100=number/100-1 := by omega
    have hmore : (number-1)/100=number/100-1 → (number-1)/4=number/4-1 := by omega
    have hlow : number≠400 := by
      intro heq
      omega
    rw [eraDay,hyears]
    omega

/-! ## Dates from March on -/

/-- The date of a day of a year that begins with March. -/
def marchDate (year doy : ℤ) : Date :=
  let mp := (5*doy+2)/153
  let month := mp+if mp < 10 then 3 else -9
  ⟨if month ≤ 2 then year+1 else year,month,doy-(153*mp+2)/5+1⟩

/-- The day of the year that begins with March. -/
def Date.marchDay (date : Date) : ℤ := (153*date.marchMonth+2)/5+date.day-1

/-- The days before a year that begins with March, from the first of March of the year 0 on. -/
def daysBefore (year : ℤ) : ℤ := 365*year+year/4-year/100+year/400

/-- The number of a date counts from March. -/
theorem Date.number_eq (date : Date) :
    date.number=daysBefore date.marchYear+date.marchDay-719468 := by
  unfold Date.number Date.marchDay daysBefore
  ring

/-- The year it counts in. -/
theorem marchYear_marchDate (hlow : 0 ≤ doy) (hhigh : doy ≤ 366) :
    (marchDate year doy).marchYear=year := by
  obtain ⟨mp,hmp⟩ : ∃ mp, mp=(5*doy+2)/153 := ⟨_,rfl⟩
  have hbounds : 0 ≤ mp ∧ mp ≤ 11 := by omega
  unfold marchDate Date.marchYear
  dsimp only
  rw [←hmp]
  split_ifs <;> omega

/-- The number of a day of a year. -/
theorem number_marchDate (hlow : 0 ≤ doy) (hhigh : doy ≤ 366) :
    (marchDate year doy).number=daysBefore year+doy-719468 := by
  have hyear := @marchYear_marchDate year doy hlow hhigh
  obtain ⟨mp,hmp⟩ : ∃ mp, mp=(5*doy+2)/153 := ⟨_,rfl⟩
  have hbounds : 0 ≤ mp ∧ mp ≤ 11 := by omega
  have hmonth : (marchDate year doy).marchMonth=mp := by
    unfold marchDate Date.marchMonth
    dsimp only
    rw [←hmp]
    split_ifs <;> omega
  rw [Date.number_eq,Date.marchDay,hyear,hmonth]
  unfold marchDate
  dsimp only
  rw [←hmp]
  ring

/-- Every day of such a year is a date. -/
theorem marchDate_valid (hlow : 0 ≤ doy) (hhigh : doy ≤ 365)
    (hlast : doy=365 → IsLeap (year+1)) : (marchDate year doy).Valid := by
  obtain ⟨mp,hmp⟩ : ∃ mp, mp=(5*doy+2)/153 := ⟨_,rfl⟩
  have hfirst : 0 ≤ mp := by omega
  have hend : mp ≤ 11 := by omega
  unfold marchDate
  dsimp only
  rw [←hmp]
  by_cases hfebruary : mp=11
  · subst hfebruary
    have hday : doy-(153*11+2)/5+1 ≤ 29 := by omega
    have hleap : doy-(153*11+2)/5+1=29 → IsLeap (year+1) := fun heq => hlast (by omega)
    refine ⟨by norm_num,by norm_num,by dsimp only; omega,?_⟩
    norm_num [monthLength] at hday hleap ⊢
    split_ifs with h
    · omega
    · have hne : doy-337+1≠29 := fun heq => h (hleap (by omega))
      omega
  · have hbefore : mp ≤ 10 := by omega
    clear hend hfebruary
    interval_cases mp <;>
      refine ⟨by norm_num,by norm_num,by dsimp only; omega,?_⟩ <;>
      norm_num [monthLength] <;> omega

/-- A date is the date of its day. -/
theorem Date.Valid.marchDate_eq (h : date.Valid) :
    marchDate date.marchYear date.marchDay=date := by
  obtain ⟨year,month,day⟩ := date
  obtain ⟨hlow,hhigh,hpos,hle⟩ := h
  have hlength : monthLength year month ≤ 31 ∧
      (month=4 ∨ month=6 ∨ month=9 ∨ month=11 → monthLength year month ≤ 30) ∧
      (month=2 → monthLength year month ≤ 29) := by
    unfold monthLength
    split_ifs <;> omega
  dsimp only at hlow hhigh hpos hle
  obtain ⟨mp,hmp⟩ : ∃ mp, mp=(5*Date.marchDay ⟨year,month,day⟩+2)/153 := ⟨_,rfl⟩
  have hmonth : mp=Date.marchMonth ⟨year,month,day⟩ := by
    rw [hmp]
    unfold Date.marchDay Date.marchMonth
    dsimp only
    interval_cases month <;> norm_num at hlength ⊢ <;> omega
  unfold marchDate
  rw [←hmp,hmonth]
  unfold Date.marchDay Date.marchMonth Date.marchYear
  dsimp only
  interval_cases month <;> norm_num <;> omega

/-- A day lies within its year. -/
theorem Date.Valid.marchDay_bounds (h : date.Valid) :
    0 ≤ date.marchDay ∧ date.marchDay < daysBefore (date.marchYear+1)-daysBefore date.marchYear := by
  obtain ⟨year,month,day⟩ := date
  obtain ⟨hlow,hhigh,hpos,hle⟩ := h
  dsimp only at hlow hhigh hpos hle
  unfold Date.marchDay Date.marchMonth Date.marchYear daysBefore
  unfold monthLength IsLeap at hle
  dsimp only
  interval_cases month <;> norm_num at hle ⊢ <;> (try split_ifs at hle) <;> omega

/-- Later years begin later. -/
theorem daysBefore_mono {m n : ℤ} (h : m ≤ n) : daysBefore m ≤ daysBefore n := by
  unfold daysBefore
  omega

/-- A date has a number of its own. -/
theorem Date.Valid.eq_of_number {date other : Date} (h : date.Valid) (h' : other.Valid)
    (hnumber : date.number=other.number) : date=other := by
  have hbounds := h.marchDay_bounds
  have hbounds' := h'.marchDay_bounds
  rw [Date.number_eq,Date.number_eq] at hnumber
  have hyear : date.marchYear=other.marchYear := by
    rcases lt_trichotomy date.marchYear other.marchYear with hlt | heq | hgt
    · have hmono : daysBefore (date.marchYear+1) ≤ daysBefore other.marchYear :=
        daysBefore_mono (by omega)
      omega
    · exact heq
    · have hmono : daysBefore (other.marchYear+1) ≤ daysBefore date.marchYear :=
        daysBefore_mono (by omega)
      omega
  have hday : date.marchDay=other.marchDay := by
    rw [hyear] at hnumber
    omega
  rw [←h.marchDate_eq,←h'.marchDate_eq,hyear,hday]

/-! ## Dates of all days -/

/-- The date of a day by whole eras. -/
def dateOf (days : ℤ) : Date :=
  let z := days+719468
  marchDate (eraYear (z%146097)+z/146097*400) (eraDay (z%146097))

/-- An era has 146097 days. -/
theorem daysBefore_era (year era : ℤ) :
    daysBefore (year+era*400)=daysBefore year+146097*era := by
  unfold daysBefore
  omega

/-- The days of an era have dates. -/
theorem eraDate_valid (hlow : 0 ≤ doe) (hhigh : doe ≤ 146096) (era : ℤ) :
    (marchDate (eraYear doe+era*400) (eraDay doe)).Valid ∧
      (marchDate (eraYear doe+era*400) (eraDay doe)).number=146097*era+doe-719468 ∧
      0 ≤ eraYear doe ∧ eraYear doe ≤ 399 ∧ (doe=146096 → eraYear doe=399) := by
  obtain ⟨century,cycle,year,day,hparts⟩ := exists_eraParts hlow hhigh
  obtain ⟨hyear,hday⟩ := hparts.year_day
  obtain ⟨hsum,hcentury,hcycle,hyears,hdays,hlast⟩ := hparts
  have hleap : day=365 → IsLeap (eraYear doe+era*400+1) := by
    intro hfull
    obtain ⟨hthird,hcycles⟩ := hlast hfull
    rw [hyear]
    unfold IsLeap
    omega
  refine ⟨?_,?_,by omega,by omega,fun hend => by omega⟩
  · rw [hday]
    exact marchDate_valid hdays.1 hdays.2 hleap
  · rw [number_marchDate (by omega) (by omega),daysBefore_era,eraDay]
    unfold daysBefore
    omega

/-- Every number is that of a date. -/
theorem dateOf_spec (days : ℤ) : (dateOf days).Valid ∧ (dateOf days).number=days := by
  have hlow := Int.emod_nonneg (days+719468) (show (146097 : ℤ)≠0 by norm_num)
  have hhigh := Int.emod_lt_of_pos (days+719468) (show (0 : ℤ) < 146097 by norm_num)
  obtain ⟨hvalid,hnumber,-⟩ := eraDate_valid hlow (by omega) ((days+719468)/146097)
  refine ⟨hvalid,hnumber.trans ?_⟩
  omega

/-- Counted days are the number of a date. -/
theorem DayCount.valid_number (h : DayCount date days) :
    date.Valid ∧ date.number=days := by
  induction h with
  | epoch => exact ⟨⟨by norm_num,by norm_num,by norm_num,by decide⟩,by decide⟩
  | next _ ih =>
    refine ⟨ih.1.next,?_⟩
    rw [ih.1.number_next,ih.2]
  | previous hvalid _ ih =>
    have hnext := hvalid.number_next
    rw [ih.2] at hnext
    exact ⟨hvalid,by omega⟩

/-- The next number is that of the next day. -/
theorem dateOf_next (days : ℤ) : (dateOf days).next=dateOf (days+1) := by
  obtain ⟨hvalid,hnumber⟩ := dateOf_spec days
  obtain ⟨hvalid',hnumber'⟩ := dateOf_spec (days+1)
  refine hvalid.next.eq_of_number hvalid' ?_
  rw [hvalid.number_next,hnumber,hnumber']

/-- Every day is counted. -/
theorem dayCount_dateOf (days : ℤ) : DayCount (dateOf days) days := by
  induction days with
  | zero =>
    have hepoch : dateOf 0=⟨1970,1,1⟩ := by decide
    rw [hepoch]
    exact DayCount.epoch
  | succ n ih =>
    rw [←dateOf_next]
    exact ih.next
  | pred n ih =>
    refine DayCount.previous (dateOf_spec _).1 ?_
    rw [dateOf_next]
    rwa [Int.sub_add_cancel]

/-- The count is the calendar's. -/
theorem dayCount_iff : DayCount date days ↔ date=dateOf days := by
  constructor
  · intro h
    obtain ⟨hvalid,hnumber⟩ := h.valid_number
    obtain ⟨hvalid',hnumber'⟩ := dateOf_spec days
    exact hvalid.eq_of_number hvalid' (hnumber.trans hnumber'.symm)
  · rintro rfl
    exact dayCount_dateOf days

/-! ## The code's dates -/

/-- The day is not before the first of March of the year 0, or is the last of its era. -/
def EraFound (days : ℤ) : Prop := 0 ≤ days+719468 ∨ (days+719468)%146097=146096

/-- In a found era the date is right. -/
theorem civilFromDays_found (h : EraFound days) : civilFromDays days=dateOf days := by
  have hera : (if 0 ≤ days+719468 then days+719468 else days+719468-146096)/146097=
      (days+719468)/146097 := by
    unfold EraFound at h
    split_ifs <;> omega
  have hdoe : days+719468-(days+719468)/146097*146097=(days+719468)%146097 := by omega
  unfold civilFromDays dateOf
  dsimp only
  rw [hera,hdoe]
  rfl

/-- Before that the date is one day late. -/
theorem civilFromDays_late (h : ¬EraFound days) :
    (civilFromDays days).number=days+1 := by
  obtain ⟨hneg,hlast⟩ := not_or.mp h
  obtain ⟨doe,hdoe⟩ : ∃ doe, doe=(days+719468)%146097+1 := ⟨_,rfl⟩
  have hlow : 1 ≤ doe := by omega
  have hhigh : doe ≤ 146096 := by omega
  have hera : (if 0 ≤ days+719468 then days+719468 else days+719468-146096)/146097=
      (days+719468)/146097-1 := by
    rw [if_neg hneg]
    omega
  have hrest : days+719468-((days+719468)/146097-1)*146097=146096+doe := by omega
  obtain ⟨century,cycle,year,day,hparts⟩ := exists_eraParts (by omega) hhigh
  obtain ⟨hyear,hyear',hday,hday'⟩ := hparts.year_day_late (by omega)
  have hdate : civilFromDays days=marchDate
      (eraYear (146096+doe)+((days+719468)/146097-1)*400) (eraDay (146096+doe)) := by
    unfold civilFromDays
    dsimp only
    rw [hera,hrest]
    rfl
  rw [hdate,number_marchDate hday hday',daysBefore_era,eraDay]
  unfold daysBefore
  omega

/-- The days from a date, one too few in a year before the year 0 that is not the last of four
hundred. -/
theorem daysFromCivil_eq (date : Date) : daysFromCivil date=
    if 0 ≤ date.marchYear ∨ date.marchYear%400=399 then date.number else date.number-1 := by
  unfold daysFromCivil Date.number Date.marchMonth
  have hyear : date.year-(if date.month ≤ 2 then 1 else 0)=date.marchYear := rfl
  dsimp only
  rw [hyear]
  obtain ⟨year,hyear⟩ : ∃ year, year=date.marchYear := ⟨_,rfl⟩
  rw [←hyear]
  by_cases hpos : 0 ≤ year
  · rw [if_pos hpos,if_pos (Or.inl hpos)]
    omega
  · rw [if_neg hpos]
    split_ifs with h <;> omega

/-- So is the number. -/
theorem daysFromCivil_found (h : EraFound days) :
    daysFromCivil (dateOf days)=days := by
  have hlow := Int.emod_nonneg (days+719468) (show (146097 : ℤ)≠0 by norm_num)
  have hhigh := Int.emod_lt_of_pos (days+719468) (show (0 : ℤ) < 146097 by norm_num)
  obtain ⟨hvalid,hnumber⟩ := dateOf_spec days
  obtain ⟨-,-,hyear,hyear',hlast⟩ := eraDate_valid hlow (by omega) 0
  obtain ⟨century,cycle,year,day,hparts⟩ := exists_eraParts hlow (by omega)
  obtain ⟨-,hday⟩ := hparts.year_day
  obtain ⟨-,-,-,-,hdays,-⟩ := hparts
  have hmarch : (dateOf days).marchYear=eraYear ((days+719468)%146097)+(days+719468)/146097*400 :=
    marchYear_marchDate (by omega) (by omega)
  have hfound : 0 ≤ (dateOf days).marchYear ∨ (dateOf days).marchYear%400=399 := by
    rw [hmarch]
    rcases h with h | h
    · left
      omega
    · right
      rw [hlast h]
      omega
  rw [daysFromCivil_eq,if_pos hfound,hnumber]

/-- What is asked of the day of a date and of the date of a day. -/
structure CivilExact (days : ℤ) : Prop where
  valid : (civilFromDays days).Valid
  counted : DayCount (civilFromDays days) days
  back : daysFromCivil (civilFromDays days)=days
  forth : ∀ date : Date, DayCount date days → civilFromDays (daysFromCivil date)=date

/-- The date of a day number is its date in the calendar, and both conversions are inverse to each
other there, from the first of March of the year 0 on and on the last day of every era. -/
theorem civil_from_days_iff (days : ℤ) : CivilExact days ↔
    0 ≤ days+719468 ∨ (days+719468)%146097=146096 := by
  constructor
  · intro h
    by_contra hfound
    have hlate := civilFromDays_late hfound
    obtain ⟨-,hnumber⟩ := h.counted.valid_number
    omega
  · intro h
    have hfound : EraFound days := h
    have hcivil := civilFromDays_found hfound
    have hback := daysFromCivil_found hfound
    refine ⟨?_,?_,?_,fun date hdate => ?_⟩
    · rw [hcivil]
      exact (dateOf_spec days).1
    · rw [hcivil]
      exact dayCount_dateOf days
    · rw [hcivil,hback]
    · rw [dayCount_iff.mp hdate,hback,hcivil]

/-- The second day before the first of March of the year 0 is the 28th of February; the code
makes it the 29th. -/
theorem leap_day_twice : ¬CivilExact (-719470) := by
  intro h
  have hdate : civilFromDays (-719470)=⟨0,2,29⟩ := by decide
  have hcount := h.counted
  rw [hdate] at hcount
  obtain ⟨-,hnumber⟩ := hcount.valid_number
  exact absurd hnumber (by decide)

end RustSql
