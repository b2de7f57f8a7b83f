import Fieldbook.Calendar.Date

/-!
# Proofs/Calendar/Civil — days and their year, month and day

Within an era of 400 years a day is told by its century, its group of four years, its year and the
days before it in that year, all counted from March (`exists_inEra`): the last day of a year is the
366th only at the end of a group of four years, and of a century only at the end of the era.  From
these parts the year of the day is found (`yearOfEra_eq`), and what is left gives its month and day.
So every day number has a year, month and day there is such a day of, which have that day number
(`isCivil_civilOfDays`, `dayNumber_civilOfDays`).
-/

namespace Fieldbook.Date

/-- A day of an era, by the centuries, the groups of four years and the years before it, and the days
before it in its year. -/
structure InEra (day century four year inYear : Int) : Prop where
  eq : day = 36524 * century + 1461 * four + 365 * year + inYear
  century_range : 0 ≤ century ∧ century ≤ 3
  four_range : 0 ≤ four ∧ four ≤ 24
  year_range : 0 ≤ year ∧ year ≤ 3
  inYear_range : 0 ≤ inYear ∧ inYear ≤ 365
  leap : inYear = 365 → year = 3 ∧ (four = 24 → century = 3)

variable {day century four year inYear era : Int}

/-- **Every day of an era has such parts.** -/
theorem exists_inEra (h : 0 ≤ day ∧ day < 146097) :
    ∃ century four year inYear, InEra day century four year inYear := by
  obtain ⟨century, hcentury, inCentury, hday, hin⟩ : ∃ century : Int, (0 ≤ century ∧ century ≤ 3) ∧
      ∃ inCentury, day = 36524 * century + inCentury ∧ 0 ≤ inCentury ∧
        (inCentury < 36524 ∨ inCentury = 36524 ∧ century = 3) := by
    by_cases hlast : day = 146096
    · exact ⟨3, by omega, 36524, by omega⟩
    · exact ⟨day / 36524, by omega, day % 36524, by omega⟩
  obtain ⟨four, inFour, hfour, hinFour⟩ : ∃ four inFour : Int,
      inCentury = 1461 * four + inFour ∧ 0 ≤ inFour ∧ inFour < 1461 :=
    ⟨inCentury / 1461, inCentury % 1461, by omega⟩
  by_cases hlast : inFour = 1460
  · exact ⟨century, four, 3, 365, by omega, hcentury, by omega, by omega, by omega, by omega⟩
  · exact ⟨century, four, inFour / 365, inFour % 365, by omega, hcentury, by omega, by omega,
      by omega, by omega⟩

/-- The year of a day within its era. -/
theorem InEra.yearOfEra_eq (h : InEra day century four year inYear) :
    (day - day / 1460 + day / 36524 - day / 146096) / 365 = 100 * century + 4 * four + year := by
  obtain ⟨hday, hcentury, hfour, hyear, hinYear, hleap⟩ := h
  have hcenturies : day / 36524 - day / 146096 = century := by
    by_cases hlast : 1461 * four + 365 * year + inYear = 36524
    · have hthree : century = 3 := by omega
      omega
    · have hwhole : day / 36524 = century := by omega
      have hnone : day / 146096 = 0 := by omega
      omega
  -- The groups of four years are counted too fast, but not by so much that a year is reached early.
  have hfours : day / 1460 = 25 * century + four ∨
      day / 1460 = 25 * century + four + 1 ∧ year = 3 ∧ 269 ≤ inYear := by omega
  omega

theorem InEra.yearStart_eq (h : InEra day century four year inYear) :
    yearStart (100 * century + 4 * four + year) = day - inYear := by
  obtain ⟨hday, hcentury, hfour, hyear, hinYear, hleap⟩ := h
  have hfours : (100 * century + 4 * four + year) / 4 = 25 * century + four := by omega
  have hcenturies : (100 * century + 4 * four + year) / 100 = century := by omega
  rw [yearStart, hfours, hcenturies]
  omega

/-- A year of 366 days from March on ends in a leap year. -/
theorem InEra.isLeap (h : InEra day century four year 365) :
    isLeap (100 * century + 4 * four + year + era * 400 + 1) := by
  obtain ⟨-, hcentury, hfour, hyear, -, hleap⟩ := h
  simp only [Date.isLeap, Bool.and_eq_true, Bool.or_eq_true, beq_iff_eq, bne_iff_ne]
  omega

/-! ## Months -/

/-- The month that a day of a year from March on falls into, counted from March. -/
def monthOf (inYear : Int) : Int := (5 * inYear + 2) / 153

theorem monthOf_range (h : 0 ≤ inYear ∧ inYear ≤ 365) : 0 ≤ monthOf inYear ∧ monthOf inYear ≤ 11 := by
  simp only [monthOf]
  omega

/-- **A day lies within its month,** and is the 29th of February only as the 366th of its year. -/
theorem day_le (h : 0 ≤ inYear ∧ inYear ≤ 365) :
    monthStart (monthOf inYear) ≤ inYear ∧ inYear < monthStart (monthOf inYear) + 31 ∧
      (monthOf inYear ∈ [1, 3, 6, 8] → inYear < monthStart (monthOf inYear) + 30) ∧
      (monthOf inYear = 11 → inYear < monthStart (monthOf inYear) + 28 ∨
        inYear = 365 ∧ inYear < monthStart (monthOf inYear) + 29) := by
  simp only [monthOf, monthStart, List.mem_cons, List.not_mem_nil, or_false]
  omega

/-! ## Year, month and day of a day number -/

variable {days : Int}

/-- The day of its era that a day number stands for. -/
def dayOfEra (days : Int) : Int := (days + 719468) % 146097

theorem InEra.civilOfDays_eq (h : InEra (dayOfEra days) century four year inYear) :
    civilOfDays days =
      { year := 100 * century + 4 * four + year + (days + 719468) / 146097 * 400 +
          if 10 ≤ monthOf inYear then 1 else 0
        month := (if monthOf inYear < 10 then monthOf inYear + 3 else monthOf inYear - 9).toNat
        day := (inYear - monthStart (monthOf inYear) + 1).toNat } := by
  have hyear := h.yearOfEra_eq
  have hstart := h.yearStart_eq
  rw [dayOfEra] at hyear hstart
  have hinYear : (days + 719468) % 146097 - ((days + 719468) % 146097 - inYear) = inYear := by omega
  simp only [civilOfDays, hyear, hstart, hinYear, monthOf]
  rfl

theorem exists_dayOfEra (days : Int) :
    ∃ century four year inYear, InEra (dayOfEra days) century four year inYear :=
  exists_inEra ⟨Int.emod_nonneg _ (by decide), Int.emod_lt_of_pos _ (by decide)⟩

/-- A date has a year of six digits or fewer. -/
theorem natAbs_year_lt (d : Date) : d.civil.year.natAbs < 1000000 := by
  obtain ⟨century, four, year, inYear, h⟩ := exists_dayOfEra d.days
  have hrange := d.inRange
  rw [civil, h.civilOfDays_eq]
  obtain ⟨-, hcentury, hfour, hyear, -, -⟩ := h
  simp only
  split <;> omega

/-- A day by the year and month from March on. -/
theorem dayNumber_march {fromMarch month : Int} (day : Nat) (h : 0 ≤ month ∧ month ≤ 11) :
    dayNumber ⟨fromMarch + if 10 ≤ month then 1 else 0,
      (if month < 10 then month + 3 else month - 9).toNat, day⟩ =
    fromMarch / 400 * 146097 + yearStart (fromMarch % 400) + monthStart month + day - 1 - 719468 := by
  by_cases hlate : 10 ≤ month
  · have hyear : fromMarch + 1 - 1 = fromMarch := by omega
    have hmonth : ((month - 9).toNat : Int) + 9 = month := by omega
    have hearly : (month - 9).toNat ≤ 2 := by omega
    simp only [dayNumber, if_pos hlate, if_neg (Int.not_lt.mpr hlate), if_pos hearly, hyear, hmonth]
  · have hmonth : ((month + 3).toNat : Int) - 3 = month := by omega
    have hlater : ¬(month + 3).toNat ≤ 2 := by omega
    simp only [dayNumber, if_neg hlate, if_pos (Int.not_le.mp hlate), if_neg hlater, hmonth,
      Int.add_zero]

/-- **The year, month and day of a day number** are those of the day. -/
theorem dayNumber_civilOfDays (days : Int) : dayNumber (civilOfDays days) = days := by
  obtain ⟨century, four, year, inYear, h⟩ := exists_dayOfEra days
  have hstart := h.yearStart_eq
  have hday := day_le h.inYear_range
  rw [h.civilOfDays_eq, dayNumber_march _ (monthOf_range h.inYear_range)]
  obtain ⟨-, hcentury, hfour, hyear, -, -⟩ := h
  have hera : (100 * century + 4 * four + year + (days + 719468) / 146097 * 400) / 400 =
      (days + 719468) / 146097 := by omega
  have hinEra : (100 * century + 4 * four + year + (days + 719468) / 146097 * 400) % 400 =
      100 * century + 4 * four + year := by omega
  rw [hera, hinEra, hstart, dayOfEra]
  omega

/-- A day of a month from March on is one of its month. -/
theorem le_monthLength {inMonth month : Int} {civilYear : Int} (hmonth : 0 ≤ month ∧ month ≤ 11)
    (hlong : inMonth < 31) (hshort : month ∈ [1, 3, 6, 8] → inMonth < 30)
    (hlast : month = 11 → inMonth < 28 ∨ isLeap civilYear ∧ inMonth < 29) :
    (inMonth + 1).toNat ≤
      monthLength civilYear (if month < 10 then month + 3 else month - 9).toNat := by
  by_cases hfebruary : month = 11
  · subst hfebruary
    change _ ≤ if isLeap civilYear then 29 else 28
    rcases hlast rfl with hlt | ⟨hleap, hlt⟩
    · split <;> omega
    · rw [if_pos hleap]
      omega
  · by_cases hmem : month ∈ [1, 3, 6, 8]
    · have hlt := hshort hmem
      simp only [List.mem_cons, List.not_mem_nil, or_false] at hmem
      rcases hmem with rfl | rfl | rfl | rfl
      all_goals
        change _ ≤ 30
        omega
    · simp only [List.mem_cons, List.not_mem_nil, or_false, not_or] at hmem
      rw [monthLength, if_neg (by split <;> omega), if_neg (by split <;> omega)]
      omega

/-- There is such a day. -/
theorem isCivil_civilOfDays (days : Int) : isCivil (civilOfDays days) := by
  obtain ⟨century, four, year, inYear, h⟩ := exists_dayOfEra days
  have hmonth := monthOf_range h.inYear_range
  obtain ⟨hstart, hlong, hshort, hlast⟩ := day_le h.inYear_range
  rw [h.civilOfDays_eq]
  simp only [isCivil, Bool.and_eq_true, decide_eq_true_eq]
  refine ⟨⟨⟨by omega, by omega⟩, by omega⟩, le_monthLength hmonth (by omega) ?_ ?_⟩
  · intro hmem
    have hlt := hshort hmem
    omega
  · intro hfebruary
    rcases hlast hfebruary with hlt | ⟨rfl, hlt⟩
    · exact .inl (by omega)
    · rw [if_pos (by omega)]
      exact .inr ⟨h.isLeap, by omega⟩

end Fieldbook.Date
