import Columnar.Calendar

/-! # Counting days

    Days are counted by closed formulas: one for the days before a year, one
    for those before a month.  Here they are compared with the calendar itself,
    in which a date is followed by the next day of its month, or the first of
    the next month, or the first of January (`Date.next?`).  The count goes up
    by one from each date to the next (`Date.epochDay_of_next?`), and says which
    of two dates is earlier (`Date.before_iff`).

    Instants are counted in nanoseconds, so microseconds are a quotient.  They
    are also the seconds, a million times each, and the microseconds of the
    second; this is how they are calculated in words of 64 bits. -/

namespace Columnar

/-! ### Years -/

def daysInYear (year : Int) : Nat :=
  if isLeapYear year then 366 else 365

theorem daysBeforeYear_eq (year : Int) : daysBeforeYear year =
    365 * (year - 1) + (year - 1) / 4 - (year - 1) / 100 + (year - 1) / 400 := rfl

theorem daysBeforeYear_succ (year : Int) :
    daysBeforeYear (year + 1) = daysBeforeYear year + daysInYear year := by
  rw [daysBeforeYear_eq, daysBeforeYear_eq]
  unfold daysInYear
  -- a leap year is one after which one of the quotients changes
  by_cases hleap : isLeapYear year = true
  · rw [if_pos hleap]
    simp [isLeapYear] at hleap
    omega
  · rw [if_neg hleap]
    simp [isLeapYear] at hleap
    omega

/-- A year ends before any later one begins. -/
theorem daysBeforeYear_add_le {year later : Int} (h : year < later) :
    daysBeforeYear year + daysInYear year ≤ daysBeforeYear later := by
  rw [← daysBeforeYear_succ, daysBeforeYear_eq, daysBeforeYear_eq]
  omega

/-! ### Months -/

theorem month_of_daysInMonth_pos {year : Int} {month : Nat} (h : 0 < daysInMonth year month) :
    1 ≤ month ∧ month ≤ 12 := by
  unfold daysInMonth at h
  split at h
  all_goals omega

theorem daysInMonth_pos {year : Int} {month : Nat} (h : 1 ≤ month) (h' : month ≤ 12) :
    0 < daysInMonth year month := by
  unfold daysInMonth
  split
  case h_12 =>
    -- February
    split
    · decide
    · decide
  case h_13 =>
    -- no month is left
    simp only [imp_false] at *
    omega
  all_goals decide

theorem daysBeforeMonth_succ (year : Int) {month : Nat} (h : 1 ≤ month) :
    daysBeforeMonth year (month + 1) = daysBeforeMonth year month + daysInMonth year month := by
  obtain ⟨m, rfl⟩ := Nat.exists_eq_add_of_le' h
  rfl

/-- A month ends before any later one begins. -/
theorem daysBeforeMonth_add_le {year : Int} {month later : Nat} (hpos : 1 ≤ month)
    (h : month < later) :
    daysBeforeMonth year month + daysInMonth year month ≤ daysBeforeMonth year later := by
  rw [← daysBeforeMonth_succ year hpos]
  induction h with
  | refl => exact Nat.le_refl _
  | @step later hle ih =>
    have hlater : 1 ≤ later := Nat.le_trans (Nat.succ_pos month) hle
    rw [Nat.succ_eq_add_one, daysBeforeMonth_succ year hlater]
    exact Nat.le_add_right_of_le ih

/-- A thirteenth month would begin with the next year. -/
theorem daysBeforeMonth_thirteen (year : Int) : daysBeforeMonth year 13 = daysInYear year := by
  unfold daysInYear
  simp only [daysBeforeMonth, daysInMonth]
  by_cases hleap : isLeapYear year = true
  · rw [if_pos hleap, if_pos hleap]
  · rw [if_neg hleap, if_neg hleap]

namespace Date

variable {d e : Date}

/-! ### Dates -/

theorem month_mem (d : Date) : 1 ≤ d.month ∧ d.month ≤ 12 :=
  month_of_daysInMonth_pos (Nat.lt_of_lt_of_le d.day_mem.1 d.day_mem.2)

theorem eq_of_civil (hyear : d.year = e.year) (hmonth : d.month = e.month)
    (hday : d.day = e.day) : d = e := by
  obtain ⟨year, month, day, _, _⟩ := d
  obtain ⟨year', month', day', _, _⟩ := e
  subst hyear hmonth hday
  rfl

theorem ofCivil?_eq_some_iff {year : Int} {month day : Nat} :
    ofCivil? year month day = some d ↔ d.year = year ∧ d.month = month ∧ d.day = day := by
  constructor
  · intro h
    unfold ofCivil? at h
    split at h
    · split at h
      · cases h
        exact ⟨rfl, rfl, rfl⟩
      · cases h
    · cases h
  · rintro ⟨rfl, rfl, rfl⟩
    unfold ofCivil?
    rw [dif_pos d.year_mem, dif_pos d.day_mem]

theorem ofCivil?_eq_none_iff {year : Int} {month day : Nat} :
    ofCivil? year month day = none ↔
      ¬((minYear ≤ year ∧ year ≤ maxYear) ∧ 1 ≤ day ∧ day ≤ daysInMonth year month) := by
  unfold ofCivil?
  by_cases hyear : minYear ≤ year ∧ year ≤ maxYear
  · by_cases hday : 1 ≤ day ∧ day ≤ daysInMonth year month
    · simp [hyear, hday]
    · simp [hyear, hday]
  · simp [hyear]

/-- The days from 0001-01-01, which has number one, to the date. -/
def dayNumber (d : Date) : Int :=
  daysBeforeYear d.year + daysBeforeMonth d.year d.month + d.day

theorem epochDay_eq (d : Date) : d.epochDay = d.dayNumber - 719163 := rfl

/-- The number of the day within its year. -/
def dayOfYear (d : Date) : Nat :=
  daysBeforeMonth d.year d.month + d.day

theorem dayNumber_eq (d : Date) : d.dayNumber = daysBeforeYear d.year + d.dayOfYear := by
  unfold dayNumber dayOfYear
  omega

theorem dayOfYear_mem (d : Date) : 1 ≤ d.dayOfYear ∧ d.dayOfYear ≤ daysInYear d.year := by
  have hmonth := d.month_mem
  have hend : daysBeforeMonth d.year d.month + daysInMonth d.year d.month ≤
      daysBeforeMonth d.year 13 := daysBeforeMonth_add_le hmonth.1 (by omega)
  rw [daysBeforeMonth_thirteen] at hend
  have hday := d.day_mem
  unfold dayOfYear
  omega

/-- All days that are counted fit into 32 bits with room to spare. -/
theorem dayNumber_mem (d : Date) : -96000000 ≤ d.dayNumber ∧ d.dayNumber ≤ 96000000 := by
  have hyear := d.year_mem
  have hday := d.dayOfYear_mem
  have hlength : daysInYear d.year ≤ 366 := by
    unfold daysInYear
    split
    · exact Nat.le_refl _
    · omega
  unfold minYear maxYear at hyear
  rw [dayNumber_eq, daysBeforeYear_eq]
  omega

/-! ### Order -/

/-- The date comes before the other one in the calendar. -/
def Before (d e : Date) : Prop :=
  d.year < e.year ∨ d.year = e.year ∧ (d.month < e.month ∨ d.month = e.month ∧ d.day < e.day)

theorem before_trichotomy (d e : Date) : d.Before e ∨ d = e ∨ e.Before d := by
  unfold Before
  rcases Int.lt_trichotomy d.year e.year with hyear | hyear | hyear
  · exact .inl (.inl hyear)
  · rcases Nat.lt_trichotomy d.month e.month with hmonth | hmonth | hmonth
    · exact .inl (.inr ⟨hyear, .inl hmonth⟩)
    · rcases Nat.lt_trichotomy d.day e.day with hday | hday | hday
      · exact .inl (.inr ⟨hyear, .inr ⟨hmonth, hday⟩⟩)
      · exact .inr (.inl (eq_of_civil hyear hmonth hday))
      · exact .inr (.inr (.inr ⟨hyear.symm, .inr ⟨hmonth.symm, hday⟩⟩))
    · exact .inr (.inr (.inr ⟨hyear.symm, .inl hmonth⟩))
  · exact .inr (.inr (.inl hyear))

theorem dayNumber_lt_of_before (h : d.Before e) : d.dayNumber < e.dayNumber := by
  rcases h with hyear | ⟨hyear, hmonth | ⟨hmonth, hday⟩⟩
  · have hlast := d.dayOfYear_mem
    have hfirst := e.dayOfYear_mem
    have hend := daysBeforeYear_add_le hyear
    rw [dayNumber_eq, dayNumber_eq]
    omega
  · have hlast := d.day_mem
    have hfirst := e.day_mem
    have hend : daysBeforeMonth d.year d.month + daysInMonth d.year d.month ≤
        daysBeforeMonth d.year e.month := daysBeforeMonth_add_le d.month_mem.1 hmonth
    unfold dayNumber
    rw [← hyear]
    omega
  · unfold dayNumber
    rw [← hyear, ← hmonth]
    omega

/-- Earlier dates have lesser numbers, and no other dates have. -/
theorem before_iff : d.Before e ↔ d.epochDay < e.epochDay := by
  rw [epochDay_eq, epochDay_eq, Int.sub_lt_sub_right_iff]
  refine ⟨dayNumber_lt_of_before, fun hlt => ?_⟩
  rcases before_trichotomy d e with h | rfl | h
  · exact h
  · exact absurd hlt (Int.lt_irrefl _)
  · exact absurd (Int.lt_trans hlt (dayNumber_lt_of_before h)) (Int.lt_irrefl _)

theorem epochDay_inj : d.epochDay = e.epochDay ↔ d = e := by
  refine ⟨fun heq => ?_, fun h => h ▸ rfl⟩
  rcases before_trichotomy d e with h | h | h
  · exact absurd heq (Int.ne_of_lt (before_iff.1 h))
  · exact h
  · exact absurd heq.symm (Int.ne_of_lt (before_iff.1 h))

/-! ### The next date -/

/-- The next date of the calendar: another day of the month, or the first day of the next month or
    of the next year. -/
def next? (d : Date) : Option Date :=
  (ofCivil? d.year d.month (d.day + 1)).or
    ((ofCivil? d.year (d.month + 1) 1).or (ofCivil? (d.year + 1) 1 1))

/-- Another day of the month follows, or the month is over; and if its year is over as well, then
    it was December. -/
theorem next?_cases (h : d.next? = some e) :
    (e.year = d.year ∧ e.month = d.month ∧ e.day = d.day + 1) ∨
    d.day = daysInMonth d.year d.month ∧
      ((e.year = d.year ∧ e.month = d.month + 1 ∧ e.day = 1) ∨
        d.month = 12 ∧ e.year = d.year + 1 ∧ e.month = 1 ∧ e.day = 1) := by
  unfold next? at h
  have hday := d.day_mem
  have hmonth := d.month_mem
  rcases Option.or_eq_some_iff.1 h with h | ⟨hover, h⟩
  · exact .inl (ofCivil?_eq_some_iff.1 h)
  · have hlast : d.day = daysInMonth d.year d.month := by
      have hnot := ofCivil?_eq_none_iff.1 hover
      have hyear := d.year_mem
      omega
    refine .inr ⟨hlast, ?_⟩
    rcases Option.or_eq_some_iff.1 h with h | ⟨hover, h⟩
    · exact .inl (ofCivil?_eq_some_iff.1 h)
    · refine .inr ⟨?_, ofCivil?_eq_some_iff.1 h⟩
      apply Decidable.byContradiction
      intro hne
      have hpos : 0 < daysInMonth d.year (d.month + 1) := daysInMonth_pos (by omega) (by omega)
      exact ofCivil?_eq_none_iff.1 hover ⟨d.year_mem, by omega, hpos⟩

/-- The count goes up by one from each date to the next. -/
theorem epochDay_of_next? (h : d.next? = some e) : e.epochDay = d.epochDay + 1 := by
  unfold epochDay
  rcases next?_cases h with ⟨hyear, hmonth, hday⟩ | ⟨hlast, ⟨hyear, hmonth, hday⟩ | hnew⟩
  · rw [hyear, hmonth, hday]
    omega
  · rw [hyear, hmonth, hday, daysBeforeMonth_succ _ d.month_mem.1]
    omega
  · obtain ⟨hdecember, hyear, hmonth, hday⟩ := hnew
    have hend := daysBeforeMonth_succ d.year d.month_mem.1
    rw [hdecember, daysBeforeMonth_thirteen, ← hdecember] at hend
    rw [hyear, hmonth, hday, daysBeforeYear_succ, hend]
    simp only [daysBeforeMonth]
    omega

/-- Only the last of all dates has none after it. -/
theorem next?_eq_none_iff :
    d.next? = none ↔ d.year = maxYear ∧ d.month = 12 ∧ d.day = 31 := by
  have hyear := d.year_mem
  have hday := d.day_mem
  have hmonth := d.month_mem
  unfold next?
  rw [Option.or_eq_none_iff, Option.or_eq_none_iff, ofCivil?_eq_none_iff, ofCivil?_eq_none_iff,
    ofCivil?_eq_none_iff]
  constructor
  · rintro ⟨hlast, hdecember, hnever⟩
    have hmonth12 : d.month = 12 := by
      apply Decidable.byContradiction
      intro hne
      have hpos : 0 < daysInMonth d.year (d.month + 1) := daysInMonth_pos (by omega) (by omega)
      exact hdecember ⟨hyear, Nat.le_refl 1, hpos⟩
    have hjanuary : daysInMonth (d.year + 1) 1 = 31 := rfl
    have hlength : daysInMonth d.year d.month = 31 := by
      rw [hmonth12]
      rfl
    unfold minYear maxYear at *
    omega
  · rintro ⟨hlast, hdecember, hday31⟩
    have hthirteen : daysInMonth d.year (12 + 1) = 0 := rfl
    have hlength : daysInMonth d.year 12 = 31 := rfl
    rw [hdecember, hday31]
    omega

end Date

/-! ### Instants -/

namespace Timestamp

/-- The second of the day. -/
def clock (t : Timestamp) : Nat :=
  t.hour * 3600 + t.minute * 60 + t.second

theorem clock_lt (t : Timestamp) : t.clock < 86400 := by
  have hhour := t.hour_lt
  have hminute := t.minute_lt
  have hsecond := t.second_lt
  unfold clock
  omega

/-- The seconds from the start of 1970-01-01 to that of the second in which the instant lies; they
    are negative before. -/
def epochSeconds (t : Timestamp) : Int :=
  t.date.epochDay * 86400 + t.clock

theorem epochNanos_eq (t : Timestamp) : t.epochNanos = t.epochSeconds * 1000000000 + t.nanos := rfl

/-- The microseconds are those of whole seconds and those of the second. -/
theorem epochMicros_eq (t : Timestamp) :
    t.epochMicros = t.epochSeconds * 1000000 + (t.nanos / 1000 : Nat) := by
  unfold epochMicros
  rw [epochNanos_eq]
  omega

/-- The quotient is rounded toward the past. -/
theorem epochMicros_floor (t : Timestamp) :
    t.epochMicros * 1000 ≤ t.epochNanos ∧ t.epochNanos < (t.epochMicros + 1) * 1000 := by
  unfold epochMicros
  omega

theorem epochSeconds_mem (t : Timestamp) :
    -9000000000000 ≤ t.epochSeconds ∧ t.epochSeconds ≤ 9000000000000 := by
  have hday := t.date.dayNumber_mem
  have hclock := t.clock_lt
  unfold epochSeconds
  rw [Date.epochDay_eq]
  omega

/-- The instant comes before the other one, or is the same: on an earlier date, or on that date in
    an earlier second, or in that second. -/
def NotAfter (t u : Timestamp) : Prop :=
  t.date.Before u.date ∨
    t.date = u.date ∧ (t.clock < u.clock ∨ t.clock = u.clock ∧ t.nanos ≤ u.nanos)

/-- Unless there are leap seconds, later instants have no lesser count. -/
theorem epochMicros_le {t u : Timestamp} (ht : t.nanos < 1000000000) (h : t.NotAfter u) :
    t.epochMicros ≤ u.epochMicros := by
  have hclock := t.clock_lt
  have hnanos : t.epochNanos ≤ u.epochNanos := by
    rw [epochNanos_eq, epochNanos_eq]
    unfold epochSeconds
    rcases h with hdate | ⟨hdate, hclock | ⟨hclock, hnanos⟩⟩
    · have hday := Date.before_iff.1 hdate
      omega
    · rw [hdate]
      omega
    · rw [hdate, hclock]
      omega
  exact Int.ediv_le_ediv (by decide) hnanos

end Timestamp

end Columnar
