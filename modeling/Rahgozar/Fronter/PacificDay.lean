import Rahgozar.Lib.Calendar

set_option autoImplicit false

/-! # The day of the quota (`src/domain_fronter.rs`)

The counters of the day are reset when the date in Pacific Time changes. The date is computed from
the Unix time without a table of time zones: from the days in standard time it is decided whether
daylight saving is on, and then the offset is taken off once more. The decision is made for whole
days, and daylight saving begins and ends at 02:00; the date is right all the same.
-/

namespace Rahgozar.Fronter

open Calendar

/-! ## From seconds to a date -/

/-- `unix_to_ymd_utc`. `/` on `i64` rounds towards zero. -/
def unixToYmdUtc (secs : Nat) : Int × Nat × Nat :=
  let days : Int := ((secs / 86400 : Nat) : Int)
  let z := days + 719468
  let era := (if 0 ≤ z then z else z - 146096).tdiv 146097
  let doe := (z - era * 146097).toNat
  let yoe := (doe - doe / 1460 + doe / 36524 - doe / 146096) / 365
  let y := (yoe : Int) + era * 400
  let doy := doe - (365 * yoe + yoe / 4 - yoe / 100)
  let mp := (5 * doy + 2) / 153
  let d := doy - (153 * mp + 2) / 5 + 1
  let m := if mp < 10 then mp + 3 else mp - 9
  (if m ≤ 2 then y + 1 else y, m, d)

/-- The table of Sakamoto's method. -/
def sakamotoTable : List Int := [0, 3, 2, 5, 0, 3, 5, 1, 4, 6, 2, 4]

/-- `nth_sunday_of_month`, for a month from 1 to 12. -/
def nthSundayOfMonth (year : Int) (month nth : Nat) : Nat :=
  let y := if month < 3 then year - 1 else year
  let dowOf1st :=
    ((y + y.tdiv 4 - y.tdiv 100 + y.tdiv 400 + sakamotoTable.getD (month - 1) 0 + 1) % 7).toNat
  let firstSunday := if dowOf1st = 0 then 1 else 8 - dowOf1st
  firstSunday + (nth - 1) * 7

/-- `pacific_is_dst` -/
def pacificIsDst (year : Int) (month day : Nat) : Bool :=
  if ¬ (3 ≤ month ∧ month ≤ 11) then false
  else if 3 < month ∧ month < 11 then true
  else if month = 3 then decide (nthSundayOfMonth year 3 2 ≤ day)
  else decide (day < nthSundayOfMonth year 11 1)

/-- `unix_to_pt_seconds`. The subtractions are saturating. -/
def unixToPtSeconds (utcSecs : Nat) : Nat :=
  let (y, m, d) := unixToYmdUtc (utcSecs - 8 * 3600)
  utcSecs - if pacificIsDst y m d then 7 * 3600 else 8 * 3600

/-- A number with zeros in front, up to the width. -/
def zeroPadded (width n : Nat) : List Char :=
  let digits := Nat.toDigits 10 n
  List.replicate (width - digits.length) '0' ++ digits

/-- The `format!` of `current_pt_day_key`, `{:04}-{:02}-{:02}`; the year is not negative. -/
def dayKey : Int × Nat × Nat → String
  | (y, m, d) =>
      String.ofList (zeroPadded 4 y.toNat ++ '-' :: (zeroPadded 2 m ++ '-' :: zeroPadded 2 d))

/-- `current_pt_day_key` at a Unix time. -/
def currentPtDayKey (secs : Nat) : String := dayKey (unixToYmdUtc (unixToPtSeconds secs))

/-! ## Pacific Time -/

/-- A Unix time in the months of daylight saving: from 02:00 in standard time on the second Sunday
of March to 02:00 in daylight time on the first Sunday of November. -/
def IsDaylight (t : Nat) : Prop :=
  ∃ first last, IsNthSunday 2 3 first ∧ IsNthSunday 1 11 last ∧
    (Date.ofDay first).year = (Date.ofDay last).year ∧
    86400 * first + 10 * 3600 ≤ t ∧ t < 86400 * last + 9 * 3600

open Classical in
/-- The Pacific clock at a Unix time, in seconds since it showed 1970-01-01. -/
noncomputable def pacificClock (t : Nat) : Nat := t - if IsDaylight t then 7 * 3600 else 8 * 3600

/-- The days on the Pacific clock. -/
noncomputable def pacificDay (t : Nat) : Nat := pacificClock t / 86400

/-- A date as the code has it. -/
def ymd (d : Date) : Int × Nat × Nat := (d.year, d.month, d.day)

/-! ## The date of a day -/

/-- The year of an era, from the days of the era. -/
theorem yearOfEra_eq {a b c doy doe : Nat} (ha : a < 4) (hb : b < 25) (hc : c < 4)
    (hdoy : doy < 365 ∨ (doy = 365 ∧ a = 3 ∧ (b < 24 ∨ c = 3)))
    (hdoe : doe = 36524 * c + 1461 * b + 365 * a + doy) :
    (doe - doe / 1460 + doe / 36524 - doe / 146096) / 365 = 100 * c + 4 * b + a := by
  by_cases hlast : doe = 146096
  · have hyoe : 100 * c + 4 * b + a = 399 := by omega
    rw [hlast, hyoe]
  · have hera : doe / 146096 = 0 := by omega
    have hcentury : doe / 36524 = c := by omega
    have hfour : doe / 1460 = 25 * c + b ∧ doy < 365 ∨ doe / 1460 = 25 * c + b + 1 ∧ 1 ≤ doy := by
      omega
    rw [hera, hcentury]
    obtain ⟨hfour, hlt⟩ | ⟨hfour, hpos⟩ := hfour
    · rw [hfour]
      omega
    · rw [hfour]
      omega

/-- The days in front of a year, by its place in the four hundred years of its era. -/
theorem daysBeforeYear_era {a b c era : Nat} (ha : a < 4) (hb : b < 25) (hc : c < 4) :
    daysBeforeYear (400 * era + (100 * c + 4 * b + a)) =
      146097 * era + (36524 * c + 1461 * b + 365 * a) := by
  have h4 : (400 * era + (100 * c + 4 * b + a)) / 4 = 100 * era + 25 * c + b := by omega
  have h100 : (400 * era + (100 * c + 4 * b + a)) / 100 = 4 * era + c := by omega
  have h400 : (400 * era + (100 * c + 4 * b + a)) / 400 = era := by omega
  rw [daysBeforeYear, h4, h100, h400]
  omega

/-- The day of a year that begins in March. -/
def dayOfYear (d : Date) : Nat := daysBeforeMonth (marchMonth d.month) + (d.day - 1)

theorem dayOfYear_lt (d : Date) :
    dayOfYear d < 365 ∨ (dayOfYear d = 365 ∧ IsLeap (marchYear d.year d.month + 1)) := by
  have hlt := d.serial_lt_year
  rw [Date.serial, daysBeforeYear_succ] at hlt
  unfold dayOfYear
  split_ifs at hlt with hleap
  · by_cases hlast : daysBeforeMonth (marchMonth d.month) + (d.day - 1) = 365
    · exact Or.inr ⟨hlast, hleap⟩
    · left
      omega
  · left
    omega

/-- The month from the day of the year. -/
theorem month_of_dayOfYear (d : Date) : (5 * dayOfYear d + 2) / 153 = marchMonth d.month := by
  have hlow : daysBeforeMonth (marchMonth d.month) ≤ dayOfYear d := Nat.le_add_right ..
  have hmarch := marchMonth_le d.month_le
  by_cases hlast : marchMonth d.month = 11
  · have hyear : dayOfYear d < 366 := by
      obtain hlt | ⟨heq, -⟩ := dayOfYear_lt d
      · exact Nat.lt_succ_of_lt hlt
      · exact heq ▸ by decide
    rw [hlast] at hlow ⊢
    change 337 ≤ dayOfYear d at hlow
    omega
  · have hlt := d.serial_lt_month (Nat.lt_add_one _) (Nat.lt_of_le_of_ne hmarch hlast)
    have hnext : dayOfYear d < daysBeforeMonth (marchMonth d.month + 1) := by
      rw [Date.serial] at hlt
      unfold dayOfYear
      omega
    unfold daysBeforeMonth at hlow hnext
    omega

theorem month_of_marchMonth {month : Nat} (hpos : 1 ≤ month) (hle : month ≤ 12) :
    (if marchMonth month < 10 then marchMonth month + 3 else marchMonth month - 9) = month := by
  interval_cases month <;> rfl

theorem year_of_marchYear {year month : Nat} (hyear : 1 ≤ year) :
    (if month ≤ 2 then (marchYear year month : Int) + 1 else marchYear year month) = year := by
  unfold marchYear
  split_ifs <;> omega

/-- **The date of a Unix time.** -/
theorem unixToYmdUtc_eq (secs : Nat) :
    unixToYmdUtc secs = ymd (Date.ofDay (secs / 86400)) := by
  have hserial := Date.serial_ofDay (secs / 86400)
  generalize Date.ofDay (secs / 86400) = d at hserial ⊢
  -- The place of the year in its era.
  obtain ⟨era, c, b, a, hc, hb, ha, hyear⟩ : ∃ era c b a, c < 4 ∧ b < 25 ∧ a < 4 ∧
      marchYear d.year d.month = 400 * era + (100 * c + 4 * b + a) := by
    generalize marchYear d.year d.month = y
    refine ⟨y / 400, y % 400 / 100, y % 100 / 4, y % 4, ?_, ?_, ?_, ?_⟩ <;> omega
  have hdoy : dayOfYear d < 365 ∨ (dayOfYear d = 365 ∧ a = 3 ∧ (b < 24 ∨ c = 3)) := by
    refine (dayOfYear_lt d).imp_right fun ⟨heq, hleap⟩ => ⟨heq, ?_⟩
    rw [hyear] at hleap
    unfold IsLeap at hleap
    omega
  have hdoe : ((secs / 86400 : Nat) : Int) + 719468 =
      146097 * era + ((36524 * c + 1461 * b + 365 * a + dayOfYear d : Nat) : Int) := by
    rw [Date.serial, Nat.add_assoc, hyear, daysBeforeYear_era ha hb hc] at hserial
    unfold dayOfYear
    unfold epochSerial at hserial
    omega
  generalize hdoe' : 36524 * c + 1461 * b + 365 * a + dayOfYear d = doe at hdoe
  have hlt : doe < 146097 := by omega
  have hera : (((secs / 86400 : Nat) : Int) + 719468).tdiv 146097 = era := by
    rw [hdoe, Int.tdiv_eq_ediv_of_nonneg (by omega)]
    omega
  have hyoe := yearOfEra_eq ha hb hc hdoy hdoe'.symm
  have hdoy' : doe - (365 * (100 * c + 4 * b + a) + (100 * c + 4 * b + a) / 4
      - (100 * c + 4 * b + a) / 100) = dayOfYear d := by
    have h4 : (100 * c + 4 * b + a) / 4 = 25 * c + b := by omega
    have h100 : (100 * c + 4 * b + a) / 100 = c := by omega
    rw [h4, h100]
    omega
  have hsub : (((secs / 86400 : Nat) : Int) + 719468 - era * 146097).toNat = doe := by
    rw [hdoe, mul_comm (era : Int), add_sub_cancel_left, Int.toNat_natCast]
  have hday : dayOfYear d - (153 * marchMonth d.month + 2) / 5 + 1 = d.day := by
    have hpos := d.day_pos
    show daysBeforeMonth (marchMonth d.month) + (d.day - 1) - daysBeforeMonth (marchMonth d.month)
      + 1 = d.day
    omega
  have hnonneg : (0 : Int) ≤ ((secs / 86400 : Nat) : Int) + 719468 :=
    Int.add_nonneg (Int.natCast_nonneg _) (by decide)
  have hy : ((100 * c + 4 * b + a : Nat) : Int) + era * 400 = marchYear d.year d.month := by
    rw [hyear]
    omega
  unfold unixToYmdUtc
  simp only []
  rw [if_pos hnonneg, hera, hsub, hyoe, hdoy', month_of_dayOfYear,
    month_of_marchMonth d.month_pos d.month_le, hday, hy, year_of_marchYear d.year_pos]
  rfl

/-! ## Sundays -/

/-- The months of Sakamoto's table are those of the serial numbers. -/
theorem sakamoto_month {month : Nat} (hpos : 1 ≤ month) (hle : month ≤ 12) :
    ∃ k : Int, (daysBeforeMonth (marchMonth month) : Int) + 3 =
      sakamotoTable.getD (month - 1) 0 + 1 + 7 * k := by
  interval_cases month
  exacts [⟨44, rfl⟩, ⟨48, rfl⟩, ⟨0, rfl⟩, ⟨4, rfl⟩, ⟨9, rfl⟩, ⟨13, rfl⟩, ⟨17, rfl⟩, ⟨22, rfl⟩,
    ⟨26, rfl⟩, ⟨30, rfl⟩, ⟨35, rfl⟩, ⟨39, rfl⟩]

/-- The weekday of the first of a month. -/
theorem sakamoto_eq {year month : Nat} (hyear : 1 ≤ year) (hpos : 1 ≤ month) (hle : month ≤ 12) :
    let y : Int := if month < 3 then (year : Int) - 1 else year
    ((y + y.tdiv 4 - y.tdiv 100 + y.tdiv 400 + sakamotoTable.getD (month - 1) 0 + 1) % 7).toNat =
      ((Date.firstOf year month hyear hpos hle).serial + 3) % 7 := by
  have hy : (if month < 3 then (year : Int) - 1 else year) = marchYear year month := by
    unfold marchYear
    split_ifs <;> omega
  obtain ⟨k, hk⟩ := sakamoto_month hpos hle
  show ((_ + Int.tdiv _ 4 - Int.tdiv _ 100 + Int.tdiv _ 400 + _ + 1) % 7).toNat =
    (daysBeforeYear (marchYear year month) + daysBeforeMonth (marchMonth month) + 0 + 3) % 7
  rw [hy]
  generalize marchYear year month = y
  rw [Int.tdiv_eq_ediv_of_nonneg (Int.natCast_nonneg y),
    Int.tdiv_eq_ediv_of_nonneg (Int.natCast_nonneg y),
    Int.tdiv_eq_ediv_of_nonneg (Int.natCast_nonneg y)]
  unfold daysBeforeYear
  omega

/-- The days of a month behind its first. -/
theorem serial_eq_firstOf (d : Date) :
    d.serial = (Date.firstOf d.year d.month d.year_pos d.month_pos d.month_le).serial
      + (d.day - 1) := rfl

/-- The day that is computed is the Sunday of this number. -/
theorem nthSundayOfMonth_iff (d : Date) {nth : Nat} (hnth : 1 ≤ nth) :
    ((d.serial + 3) % 7 = 0 ∧ 7 * (nth - 1) < d.day ∧ d.day ≤ 7 * nth) ↔
      d.day = nthSundayOfMonth d.year d.month nth := by
  have hdow := sakamoto_eq d.year_pos d.month_pos d.month_le
  have hserial := serial_eq_firstOf d
  have hpos := d.day_pos
  unfold nthSundayOfMonth
  simp only [] at hdow ⊢
  rw [hdow, hserial]
  generalize (Date.firstOf d.year d.month d.year_pos d.month_pos d.month_le).serial = first
  obtain ⟨k, rfl⟩ : ∃ k, nth = k + 1 := ⟨nth - 1, (Nat.sub_add_cancel hnth).symm⟩
  rw [Nat.add_sub_cancel]
  split_ifs <;> omega

theorem nthSundayOfMonth_bounds (year : Int) (month : Nat) {nth : Nat} (hnth : 1 ≤ nth) :
    1 ≤ nthSundayOfMonth year month nth ∧ nthSundayOfMonth year month nth ≤ 7 * nth := by
  unfold nthSundayOfMonth
  simp only []
  split_ifs <;> omega

theorem isNthSunday_iff {nth month n : Nat} (hnth : 1 ≤ nth) :
    IsNthSunday nth month n ↔ (Date.ofDay n).month = month ∧
      (Date.ofDay n).day = nthSundayOfMonth (Date.ofDay n).year month nth := by
  unfold IsNthSunday
  rw [weekday_eq_serial]
  constructor
  · rintro ⟨hsunday, rfl, hday⟩
    exact ⟨rfl, (nthSundayOfMonth_iff _ hnth).mp ⟨hsunday, hday⟩⟩
  · rintro ⟨rfl, hday⟩
    obtain ⟨hsunday, hday⟩ := (nthSundayOfMonth_iff _ hnth).mpr hday
    exact ⟨hsunday, rfl, hday⟩

theorem le_year_ofDay (n : Nat) : 1970 ≤ (Date.ofDay n).year := by
  have hnot : ¬ (Date.ofDay n).Before (Date.ofDay 0) := by
    rw [Date.ofDay_before_iff]
    exact Nat.not_lt_zero n
  unfold Date.Before at hnot
  by_contra hlt
  exact hnot (Or.inl (Nat.not_le.mp hlt))

theorem exists_nthSunday (nth month : Nat) {year : Nat} (hyear : 1970 ≤ year) (hpos : 1 ≤ month)
    (hle : month ≤ 12) (hnth : 1 ≤ nth) (hfour : nth ≤ 4) :
    ∃ n, IsNthSunday nth month n ∧ (Date.ofDay n).year = year := by
  obtain ⟨hday, hmax⟩ := nthSundayOfMonth_bounds year month hnth
  have hlength : 28 ≤ daysInMonth year month := by
    unfold daysInMonth
    split_ifs <;> omega
  have hepoch : ∀ d : Date, d.year = year → epochSerial ≤ d.serial := by
    rintro d rfl
    have hnot : ¬ d.Before (Date.ofDay 0) := by
      have hmonth := d.month_pos
      have hone := d.day_pos
      show ¬ (d.year < 1970 ∨ d.year = 1970 ∧ (d.month < 1 ∨ d.month = 1 ∧ d.day < 1))
      omega
    rw [Date.before_iff, Date.serial_ofDay] at hnot
    exact Nat.not_lt.mp hnot
  obtain ⟨n, hn, -⟩ := Date.exists_ofDay (hepoch ⟨year, month, nthSundayOfMonth year month nth,
    Nat.le_trans (by decide) hyear, hpos, hle, hday, by omega⟩ rfl)
  refine ⟨n, (isNthSunday_iff hnth).mpr ?_, ?_⟩
  · rw [hn]
    exact ⟨rfl, rfl⟩
  · rw [hn]

/-! ## Daylight saving -/

theorem pacificIsDst_eq_true (year : Int) (month day : Nat) :
    pacificIsDst year month day = true ↔ (3 < month ∧ month < 11) ∨
      (month = 3 ∧ nthSundayOfMonth year 3 2 ≤ day) ∨
      (month = 11 ∧ day < nthSundayOfMonth year 11 1) := by
  unfold pacificIsDst
  by_cases hrange : 3 ≤ month ∧ month ≤ 11
  · rw [if_neg (not_not.mpr hrange)]
    by_cases hinner : 3 < month ∧ month < 11
    · rw [if_pos hinner]
      exact iff_of_true rfl (Or.inl hinner)
    · rw [if_neg hinner]
      by_cases hmarch : month = 3
      · rw [if_pos hmarch, decide_eq_true_iff]
        omega
      · rw [if_neg hmarch, decide_eq_true_iff]
        omega
  · rw [if_pos hrange]
    refine iff_of_false Bool.false_ne_true ?_
    omega

/-- The decision on a day, by the Sundays of its year. -/
theorem pacificIsDst_iff_of_year {first last g : Nat} (hfirst : IsNthSunday 2 3 first)
    (hlast : IsNthSunday 1 11 last) (hfy : (Date.ofDay first).year = (Date.ofDay g).year)
    (hly : (Date.ofDay last).year = (Date.ofDay g).year) :
    pacificIsDst (Date.ofDay g).year (Date.ofDay g).month (Date.ofDay g).day = true ↔
      first ≤ g ∧ g < last := by
  obtain ⟨hfm, hfd⟩ := (isNthSunday_iff (by decide)).mp hfirst
  obtain ⟨hlm, hld⟩ := (isNthSunday_iff (by decide)).mp hlast
  rw [← Nat.not_lt, ← Date.ofDay_before_iff, ← Date.ofDay_before_iff]
  unfold Date.Before
  rw [hfy, hfm, hly, hlm, hfd, hld, hfy, hly]
  rw [pacificIsDst_eq_true]
  omega

theorem pacificIsDst_iff (g : Nat) :
    pacificIsDst (Date.ofDay g).year (Date.ofDay g).month (Date.ofDay g).day = true ↔
      ∃ first last, IsNthSunday 2 3 first ∧ IsNthSunday 1 11 last ∧
        (Date.ofDay first).year = (Date.ofDay last).year ∧ first ≤ g ∧ g < last := by
  constructor
  · intro h
    have hyear := le_year_ofDay g
    obtain ⟨first, hfirst, hfy⟩ := exists_nthSunday 2 3 hyear (by decide) (by decide)
      (by decide) (by decide)
    obtain ⟨last, hlast, hly⟩ := exists_nthSunday 1 11 hyear (by decide) (by decide)
      (by decide) (by decide)
    exact ⟨first, last, hfirst, hlast, hfy.trans hly.symm,
      (pacificIsDst_iff_of_year hfirst hlast hfy hly).mp h⟩
  · rintro ⟨first, last, hfirst, hlast, hyears, hle, hlt⟩
    have hfy : (Date.ofDay first).year = (Date.ofDay g).year := by
      have hnot := mt Date.ofDay_before_iff.mp (Nat.not_lt.mpr hle)
      have hbefore := Date.ofDay_before_iff.mpr hlt
      unfold Date.Before at hnot hbefore
      omega
    exact (pacificIsDst_iff_of_year hfirst hlast hfy (hyears.symm.trans hfy)).mpr ⟨hle, hlt⟩

/-! ## The Pacific clock -/

/-- A moment later the clock is on the same day, or it shows midnight. -/
theorem pacificDay_succ {t : Nat} (ht : 86400 ≤ t) :
    (pacificDay (t + 1) = pacificDay t ∧ pacificClock (t + 1) % 86400 ≠ 0) ∨
      (pacificDay (t + 1) = pacificDay t + 1 ∧ pacificClock (t + 1) % 86400 = 0) := by
  unfold pacificDay pacificClock
  by_cases hnow : IsDaylight t
  · by_cases hnext : IsDaylight (t + 1)
    · rw [if_pos hnow, if_pos hnext]
      omega
    · rw [if_pos hnow, if_neg hnext]
      obtain ⟨first, last, hfirst, hlast, hyears, hle, hlt⟩ := hnow
      -- The clock is set back from 02:00 to 01:00.
      have hend : t + 1 = 86400 * last + 9 * 3600 := by
        by_contra hne
        exact hnext ⟨first, last, hfirst, hlast, hyears, by omega, by omega⟩
      omega
  · by_cases hnext : IsDaylight (t + 1)
    · rw [if_neg hnow, if_pos hnext]
      obtain ⟨first, last, hfirst, hlast, hyears, hle, hlt⟩ := hnext
      -- The clock is set from 02:00 to 03:00.
      have hstart : t + 1 = 86400 * first + 10 * 3600 := by
        by_contra hne
        exact hnow ⟨first, last, hfirst, hlast, hyears, by omega, by omega⟩
      omega
    · rw [if_neg hnow, if_neg hnext]
      omega

theorem pacificDay_mono {s t : Nat} (hs : 86400 ≤ s) (hst : s ≤ t) :
    pacificDay s ≤ pacificDay t := by
  induction t, hst using Nat.le_induction with
  | base => exact le_refl _
  | succ t hst ih =>
      obtain ⟨hsame, -⟩ | ⟨hnext, -⟩ := pacificDay_succ (hs.trans hst)
      · exact ih.trans (le_of_eq hsame.symm)
      · exact ih.trans (hnext ▸ Nat.le_succ _)

/-! ## The key -/

/-- Deciding for whole days, from the time in standard time, is right about the day. -/
theorem unixToPtSeconds_day {t : Nat} (ht : 86400 ≤ t) :
    unixToPtSeconds t / 86400 = pacificDay t := by
  have hguess := pacificIsDst_iff ((t - 8 * 3600) / 86400)
  unfold unixToPtSeconds pacificDay pacificClock
  rw [unixToYmdUtc_eq]
  generalize Date.ofDay ((t - 8 * 3600) / 86400) = d at hguess ⊢
  show (t - if pacificIsDst d.year d.month d.day then 7 * 3600 else 8 * 3600) / 86400 = _
  by_cases hdst : pacificIsDst d.year d.month d.day = true
  · rw [if_pos hdst]
    by_cases hday : IsDaylight t
    · rw [if_pos hday]
    · rw [if_neg hday]
      obtain ⟨first, last, hfirst, hlast, hyears, hle, hlt⟩ := hguess.mp hdst
      -- It is the first day, before 02:00.
      have hearly : t < 86400 * first + 10 * 3600 := by
        by_contra hnot
        exact hday ⟨first, last, hfirst, hlast, hyears, not_lt.mp hnot, by omega⟩
      omega
  · rw [if_neg hdst]
    by_cases hday : IsDaylight t
    · rw [if_pos hday]
      obtain ⟨first, last, hfirst, hlast, hyears, hle, hlt⟩ := hday
      -- It is the last day, before 02:00.
      have hlate : 86400 * last + 8 * 3600 ≤ t := by
        by_contra hnot
        exact hdst (hguess.mpr ⟨first, last, hfirst, hlast, hyears, by omega, by omega⟩)
      omega
    · rw [if_neg hday]

theorem unixToPtSeconds_ymd {t : Nat} (ht : 86400 ≤ t) :
    unixToYmdUtc (unixToPtSeconds t) = ymd (Date.ofDay (pacificDay t)) := by
  rw [unixToYmdUtc_eq, unixToPtSeconds_day ht]

theorem ymd_inj {d e : Date} (h : ymd d = ymd e) : d = e := by
  obtain ⟨hyear, hrest⟩ := Prod.mk.inj h
  obtain ⟨hmonth, hday⟩ := Prod.mk.inj hrest
  exact Date.ext (Int.ofNat.inj hyear) hmonth hday

theorem zeroPadded_inj {width m n : Nat} (h : zeroPadded width m = zeroPadded width n) : m = n := by
  have hread : ∀ k, Nat.ofDigitChars 10 (zeroPadded width k) 0 = k := by
    intro k
    unfold zeroPadded
    rw [Nat.ofDigitChars_append, Nat.ofDigitChars_replicate_zero, Nat.mul_zero]
    exact Nat.ofDigitChars_ten_toDigits
  rw [← hread m, h, hread n]

theorem dash_notMem_zeroPadded (width n : Nat) : '-' ∉ zeroPadded width n := by
  intro hmem
  obtain hzero | hdigit := List.mem_append.mp hmem
  · exact absurd (List.eq_of_mem_replicate hzero) (by decide)
  · exact absurd (Nat.isDigit_of_mem_toDigits (by decide) (by decide) hdigit) (by decide)

/-- Two texts that are cut at their first dash. -/
theorem append_dash_inj {x y s t : List Char} (hx : '-' ∉ x) (hy : '-' ∉ y)
    (h : x ++ '-' :: s = y ++ '-' :: t) : x = y ∧ s = t := by
  induction x generalizing y with
  | nil =>
      cases y with
      | nil => exact ⟨rfl, (List.cons.inj h).2⟩
      | cons c y => exact absurd ((List.cons.inj h).1 ▸ List.mem_cons_self) hy
  | cons c x ih =>
      cases y with
      | nil => exact absurd ((List.cons.inj h).1 ▸ List.mem_cons_self) hx
      | cons d y =>
          obtain ⟨hhead, htail⟩ := List.cons.inj h
          obtain ⟨hxy, hst⟩ := ih (fun hmem => hx (List.mem_cons_of_mem c hmem))
            (fun hmem => hy (List.mem_cons_of_mem d hmem)) htail
          exact ⟨hhead ▸ hxy ▸ rfl, hst⟩

/-- Different dates have different keys. -/
theorem dayKey_inj {d e : Date} (h : dayKey (ymd d) = dayKey (ymd e)) : d = e := by
  have hchars := String.ofList_injective h
  obtain ⟨hyear, hrest⟩ := append_dash_inj (dash_notMem_zeroPadded _ _)
    (dash_notMem_zeroPadded _ _) hchars
  obtain ⟨hmonth, hday⟩ := append_dash_inj (dash_notMem_zeroPadded _ _)
    (dash_notMem_zeroPadded _ _) hrest
  exact Date.ext (zeroPadded_inj hyear) (zeroPadded_inj hmonth) (zeroPadded_inj hday)

theorem ofDay_inj {m n : Nat} (h : Date.ofDay m = Date.ofDay n) : m = n := by
  have hserial := congrArg Date.serial h
  rw [Date.serial_ofDay, Date.serial_ofDay] at hserial
  exact Nat.add_left_cancel hserial

theorem currentPtDayKey_succ {t : Nat} (ht : 86400 ≤ t) :
    currentPtDayKey (t + 1) ≠ currentPtDayKey t ↔ pacificClock (t + 1) % 86400 = 0 := by
  unfold currentPtDayKey
  rw [unixToPtSeconds_ymd ht, unixToPtSeconds_ymd (Nat.le_succ_of_le ht)]
  obtain ⟨hsame, hclock⟩ | ⟨hnext, hclock⟩ := pacificDay_succ ht
  · rw [hsame]
    exact iff_of_false (fun hne => hne rfl) hclock
  · refine iff_of_true (fun heq => ?_) hclock
    have hdays := ofDay_inj (dayKey_inj heq)
    rw [hnext] at hdays
    exact Nat.succ_ne_self _ hdays

/-- **The key is the date in Pacific Time.** It changes at midnight, and only there, and it never
goes back; the date of any Unix time is the Gregorian one. -/
theorem currentPtDayKey_exact :
    (∀ secs, unixToYmdUtc secs = ymd (Date.ofDay (secs / 86400))) ∧
    (∀ t, 86400 ≤ t →
      unixToYmdUtc (unixToPtSeconds t) = ymd (Date.ofDay (pacificClock t / 86400)) ∧
      (currentPtDayKey (t + 1) ≠ currentPtDayKey t ↔ pacificClock (t + 1) % 86400 = 0)) ∧
    ∀ s t (d e : Date), 86400 ≤ s → s ≤ t → unixToYmdUtc (unixToPtSeconds s) = ymd d →
      unixToYmdUtc (unixToPtSeconds t) = ymd e → ¬ e.Before d := by
  refine ⟨unixToYmdUtc_eq, fun t ht => ⟨unixToPtSeconds_ymd ht, currentPtDayKey_succ ht⟩, ?_⟩
  intro s t d e hs hst hd he
  rw [unixToPtSeconds_ymd hs] at hd
  rw [unixToPtSeconds_ymd (hs.trans hst)] at he
  rw [← ymd_inj hd, ← ymd_inj he, Date.ofDay_before_iff, not_lt]
  exact pacificDay_mono hs hst

end Rahgozar.Fronter
