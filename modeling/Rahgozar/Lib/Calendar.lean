import Mathlib.Tactic

set_option autoImplicit false

/-! # The Gregorian calendar

The dates of the proleptic Gregorian calendar, and the one that comes next. A date has a serial
number, the days from the first of March of the year 0 on: a year that begins in March has its leap
day at its end, so the days before a month do not depend on the year. The date of a serial number is
unique, and later dates have greater numbers.
-/

namespace Calendar

/-- A leap year. -/
def IsLeap (year : Nat) : Prop := year % 4 = 0 ∧ (year % 100 ≠ 0 ∨ year % 400 = 0)

instance (year : Nat) : Decidable (IsLeap year) := inferInstanceAs (Decidable (_ ∧ _))

def daysInMonth (year month : Nat) : Nat :=
  if month = 2 then if IsLeap year then 29 else 28
  else if month = 4 ∨ month = 6 ∨ month = 9 ∨ month = 11 then 30 else 31

theorem daysInMonth_pos (year month : Nat) : 1 ≤ daysInMonth year month := by
  unfold daysInMonth
  split_ifs <;> omega

@[ext]
structure Date where
  year : Nat
  month : Nat
  day : Nat
  year_pos : 1 ≤ year
  month_pos : 1 ≤ month
  month_le : month ≤ 12
  day_pos : 1 ≤ day
  day_le : day ≤ daysInMonth year month

namespace Date

/-- The first day of a month. -/
def firstOf (year month : Nat) (hyear : 1 ≤ year) (hpos : 1 ≤ month) (hle : month ≤ 12) : Date :=
  ⟨year, month, 1, hyear, hpos, hle, le_refl 1, daysInMonth_pos year month⟩

/-- The day after. -/
def next (d : Date) : Date :=
  if hday : d.day < daysInMonth d.year d.month then
    ⟨d.year, d.month, d.day + 1, d.year_pos, d.month_pos, d.month_le, Nat.le_add_left .., hday⟩
  else if hmonth : d.month < 12 then
    firstOf d.year (d.month + 1) d.year_pos (Nat.le_add_left ..) hmonth
  else firstOf (d.year + 1) 1 (Nat.le_add_left ..) (le_refl 1) (by decide)

/-- The date `n` days after 1970-01-01. -/
def ofDay : Nat → Date
  | 0 => firstOf 1970 1 (by decide) (by decide) (by decide)
  | n + 1 => (ofDay n).next

/-- One date is before another. -/
def Before (d e : Date) : Prop :=
  d.year < e.year ∨ (d.year = e.year ∧ (d.month < e.month ∨ (d.month = e.month ∧ d.day < e.day)))

end Date

/-! ## Serial numbers -/

/-- The days in front of a year that begins in March. -/
def daysBeforeYear (year : Nat) : Nat := 365 * year + year / 4 - year / 100 + year / 400

/-- The days in front of a month, March being 0, in a year that begins in March. -/
def daysBeforeMonth (month : Nat) : Nat := (153 * month + 2) / 5

/-- The month with March as 0. -/
def marchMonth (month : Nat) : Nat := if month ≤ 2 then month + 9 else month - 3

/-- The year that began in the last March. -/
def marchYear (year month : Nat) : Nat := if month ≤ 2 then year - 1 else year

/-- The days from the first of March of the year 0 to a date. -/
def Date.serial (d : Date) : Nat :=
  daysBeforeYear (marchYear d.year d.month) + daysBeforeMonth (marchMonth d.month) + (d.day - 1)

theorem daysBeforeYear_succ (year : Nat) :
    daysBeforeYear (year + 1) = daysBeforeYear year + if IsLeap (year + 1) then 366 else 365 := by
  have h4 := Nat.succ_div (a := year) (b := 4)
  have h100 := Nat.succ_div (a := year) (b := 100)
  have h400 := Nat.succ_div (a := year) (b := 400)
  simp only [Nat.dvd_iff_mod_eq_zero] at h4 h100 h400
  have hle : year / 100 ≤ year / 4 := Nat.div_le_div_left (by decide) (by decide)
  have hfour : (year + 1) % 100 = 0 → (year + 1) % 4 = 0 := by omega
  have hhundred : (year + 1) % 400 = 0 → (year + 1) % 100 = 0 := by omega
  -- A quotient grows where its divisor divides the new year, and each divisor divides the next.
  unfold daysBeforeYear
  rw [h4, h100, h400]
  by_cases hmod4 : (year + 1) % 4 = 0
  · by_cases hmod100 : (year + 1) % 100 = 0
    · by_cases hmod400 : (year + 1) % 400 = 0
      · rw [if_pos hmod4, if_pos hmod100, if_pos hmod400, if_pos ⟨hmod4, Or.inr hmod400⟩]
        omega
      · have hnot : ¬ IsLeap (year + 1) := fun h => h.2.elim (absurd hmod100) hmod400
        rw [if_pos hmod4, if_pos hmod100, if_neg hmod400, if_neg hnot]
        omega
    · rw [if_pos hmod4, if_neg hmod100, if_neg (mt hhundred hmod100),
        if_pos ⟨hmod4, Or.inl hmod100⟩]
      omega
  · rw [if_neg hmod4, if_neg (mt hfour hmod4), if_neg (mt (hfour ∘ hhundred) hmod4),
      if_neg fun h => hmod4 h.1]
    omega

/-- Two months behind each other, within a year that begins in March. -/
theorem daysBeforeMonth_next (year : Nat) {month : Nat} (hpos : 1 ≤ month) (hle : month < 12)
    (hmonth : month ≠ 2) :
    daysBeforeMonth (marchMonth (month + 1)) =
      daysBeforeMonth (marchMonth month) + daysInMonth year month := by
  interval_cases month <;> first | rfl | exact absurd rfl hmonth

theorem marchYear_next {year month : Nat} (hmonth : month ≠ 2) :
    marchYear year (month + 1) = marchYear year month := by
  unfold marchYear
  split_ifs <;> omega

theorem Date.serial_next (d : Date) : d.next.serial = d.serial + 1 := by
  have hpos := d.day_pos
  have hle := d.day_le
  unfold Date.next
  split
  · show daysBeforeYear (marchYear d.year d.month) + daysBeforeMonth (marchMonth d.month) +
      (d.day + 1 - 1) = d.serial + 1
    rw [Date.serial]
    omega
  · rename_i hlast
    have hday : d.day = daysInMonth d.year d.month := Nat.le_antisymm hle (Nat.not_lt.mp hlast)
    split
    · rename_i hmonth
      show daysBeforeYear (marchYear d.year (d.month + 1)) +
        daysBeforeMonth (marchMonth (d.month + 1)) + 0 = _ + _ + (d.day - 1) + 1
      by_cases hfeb : d.month = 2
      · -- The year that begins in March begins here.
        have hyear : d.year - 1 + 1 = d.year := Nat.sub_add_cancel d.year_pos
        have hbefore := daysBeforeYear_succ (d.year - 1)
        rw [hyear] at hbefore
        rw [hday, hfeb]
        show daysBeforeYear d.year + 0 + 0 =
          daysBeforeYear (d.year - 1) + 337 + ((if IsLeap d.year then 29 else 28) - 1) + 1
        split_ifs at hbefore ⊢ <;> omega
      · rw [marchYear_next hfeb, daysBeforeMonth_next d.year d.month_pos hmonth hfeb]
        omega
    · rename_i hmonth
      have hdec : d.month = 12 := Nat.le_antisymm d.month_le (Nat.not_lt.mp hmonth)
      have hserial : d.serial = daysBeforeYear d.year + 275 + (31 - 1) := by
        rw [Date.serial, hday, hdec]
        rfl
      have hnew : ∀ h1 h2 h3,
          (firstOf (d.year + 1) 1 h1 h2 h3).serial = daysBeforeYear d.year + 306 :=
        fun _ _ _ => by simp [firstOf, Date.serial, marchYear, marchMonth, daysBeforeMonth]
      rw [hserial, hnew]

/-- The serial number of 1970-01-01. -/
def epochSerial : Nat := 719468

theorem Date.serial_ofDay (n : Nat) : (Date.ofDay n).serial = epochSerial + n := by
  induction n with
  | zero => decide
  | succ n ih =>
      show (Date.ofDay n).next.serial = epochSerial + (n + 1)
      rw [Date.serial_next, ih, Nat.add_assoc]

/-! ## The order of the dates -/

theorem daysBeforeYear_mono : Monotone daysBeforeYear :=
  monotone_nat_of_le_succ fun year => by
    rw [daysBeforeYear_succ]
    exact Nat.le_add_right ..

theorem daysBeforeMonth_mono : Monotone daysBeforeMonth := fun _ _ h =>
  Nat.div_le_div_right (Nat.add_le_add_right (Nat.mul_le_mul_left 153 h) 2)

/-- A date is in front of the next first of March. -/
theorem Date.serial_lt_year (d : Date) :
    d.serial < daysBeforeYear (marchYear d.year d.month + 1) := by
  have hday := d.day_le
  have hpos := d.day_pos
  have hyear := d.year_pos
  rw [Date.serial, daysBeforeYear_succ]
  by_cases hfeb : d.month = 2
  · have hsucc : marchYear d.year d.month + 1 = d.year := by
      rw [hfeb]
      exact Nat.sub_add_cancel hyear
    have hbefore : daysBeforeMonth (marchMonth d.month) = 337 := by rw [hfeb]; rfl
    rw [hsucc, hbefore]
    rw [hfeb] at hday
    change d.day ≤ if IsLeap d.year then 29 else 28 at hday
    split_ifs at hday ⊢ <;> omega
  · have hmonth : daysBeforeMonth (marchMonth d.month) ≤ 306 := by
      refine daysBeforeMonth_mono (b := 10) ?_
      have hone := d.month_pos
      have htwelve := d.month_le
      unfold marchMonth
      split_ifs <;> omega
    have hshort : daysInMonth d.year d.month ≤ 31 := by
      unfold daysInMonth
      split_ifs <;> omega
    split_ifs <;> omega

/-- Within a year that begins in March, a date is in front of the months behind its own. -/
theorem Date.serial_lt_month (d : Date) {month : Nat} (h : marchMonth d.month < month)
    (hle : month ≤ 11) :
    d.serial < daysBeforeYear (marchYear d.year d.month) + daysBeforeMonth month := by
  have hday := d.day_le
  have hpos := d.day_pos
  have hmonth := daysBeforeMonth_mono (Nat.succ_le_of_lt h)
  have hlength : daysBeforeMonth (marchMonth d.month) + daysInMonth d.year d.month ≤
      daysBeforeMonth (marchMonth d.month + 1) := by
    have hone := d.month_pos
    have htwelve := d.month_le
    have hnot : d.month ≠ 2 := by
      intro heq
      rw [heq] at h
      exact absurd (Nat.lt_of_lt_of_le h hle) (by decide)
    generalize d.month = m at hone htwelve hnot
    interval_cases m <;> first | exact le_of_eq rfl | exact absurd rfl hnot
  rw [Date.serial]
  change daysBeforeMonth (marchMonth d.month + 1) ≤ daysBeforeMonth month at hmonth
  omega

theorem marchMonth_le {month : Nat} (hle : month ≤ 12) : marchMonth month ≤ 11 := by
  unfold marchMonth
  split_ifs <;> omega

/-- The order of the dates is that of the years that begin in March. -/
theorem Date.Before.march {d e : Date} (h : d.Before e) :
    marchYear d.year d.month < marchYear e.year e.month ∨
      (marchYear d.year d.month = marchYear e.year e.month ∧
        (marchMonth d.month < marchMonth e.month ∨
          (marchMonth d.month = marchMonth e.month ∧ d.day < e.day))) := by
  have hdyear := d.year_pos
  have hdpos := d.month_pos
  have hepos := e.month_pos
  have hdle := d.month_le
  have hele := e.month_le
  unfold Date.Before at h
  unfold marchYear marchMonth
  split_ifs <;> omega

theorem Date.serial_lt_of_before {d e : Date} (h : d.Before e) : d.serial < e.serial := by
  obtain hyear | ⟨hyear, hmonth | ⟨hmonth, hday⟩⟩ := h.march
  · calc d.serial < daysBeforeYear (marchYear d.year d.month + 1) := d.serial_lt_year
      _ ≤ daysBeforeYear (marchYear e.year e.month) := daysBeforeYear_mono hyear
      _ ≤ e.serial := by rw [Date.serial, Nat.add_assoc]; exact Nat.le_add_right ..
  · calc d.serial < _ := d.serial_lt_month hmonth (marchMonth_le e.month_le)
      _ ≤ e.serial := by rw [hyear, Date.serial]; exact Nat.le_add_right ..
  · have hpos := d.day_pos
    rw [Date.serial, Date.serial, hyear, hmonth]
    omega

theorem Date.before_trichotomy (d e : Date) : d.Before e ∨ d = e ∨ e.Before d := by
  have hext : d.year = e.year → d.month = e.month → d.day = e.day → d = e := Date.ext
  unfold Date.Before
  by_cases hyear : d.year = e.year
  · by_cases hmonth : d.month = e.month
    · by_cases hday : d.day = e.day
      · exact Or.inr (Or.inl (hext hyear hmonth hday))
      · omega
    · omega
  · omega

/-- Serial numbers are in the order of the dates. -/
theorem Date.before_iff {d e : Date} : d.Before e ↔ d.serial < e.serial := by
  refine ⟨Date.serial_lt_of_before, fun h => ?_⟩
  obtain hbefore | rfl | hafter := d.before_trichotomy e
  · exact hbefore
  · exact absurd h (lt_irrefl _)
  · exact absurd (Date.serial_lt_of_before hafter) (lt_asymm h)

theorem Date.serial_inj {d e : Date} (h : d.serial = e.serial) : d = e := by
  obtain hbefore | heq | hafter := d.before_trichotomy e
  · exact absurd h (ne_of_lt (Date.serial_lt_of_before hbefore))
  · exact heq
  · exact absurd h (ne_of_gt (Date.serial_lt_of_before hafter))

/-- Every date from 1970 on is the date of a day. -/
theorem Date.exists_ofDay {d : Date} (h : epochSerial ≤ d.serial) :
    ∃ n, Date.ofDay n = d ∧ d.serial = epochSerial + n := by
  refine ⟨d.serial - epochSerial, Date.serial_inj ?_, (Nat.add_sub_cancel' h).symm⟩
  rw [Date.serial_ofDay, Nat.add_sub_cancel' h]

theorem Date.ofDay_before_iff {m n : Nat} : (Date.ofDay m).Before (Date.ofDay n) ↔ m < n := by
  rw [Date.before_iff, Date.serial_ofDay, Date.serial_ofDay]
  exact Nat.add_lt_add_iff_left

/-! ## Sundays -/

/-- The weekday of the date `n` days after 1970-01-01, a Thursday; Sunday is 0. -/
def weekday (n : Nat) : Nat := (n + 4) % 7

/-- The day `n` is the Sunday of this number in a month. -/
def IsNthSunday (nth month n : Nat) : Prop :=
  weekday n = 0 ∧ (Date.ofDay n).month = month ∧
    7 * (nth - 1) < (Date.ofDay n).day ∧ (Date.ofDay n).day ≤ 7 * nth

/-- A weekday is found from the serial number. -/
theorem weekday_eq_serial (n : Nat) : weekday n = ((Date.ofDay n).serial + 3) % 7 := by
  rw [Date.serial_ofDay, weekday, epochSerial]
  omega

end Calendar
