import Fieldbook.Proofs.Calendar.Civil
import Fieldbook.Proofs.Text.Digits

/-!
# Proofs/Calendar/Dates — dates read as they are written

A written year is followed by a mark, and so are month and day or nothing follows, so each part is
read to its end and the date is that of the parts (`Date.read?_text`).
-/

namespace Fieldbook.Date

open Text (NoDigit padded)

variable {rest : List Char} {c : Char}

theorem noDigit_cons (h : c.isDigit = false) : NoDigit (c :: rest) := by
  rintro _ ⟨⟩
  exact h

theorem noDigit_nil : NoDigit [] := fun _ h => nomatch h

/-! ## Years -/

theorem scanDigits?_year (n : Nat) (hrest : NoDigit rest) :
    Text.scanDigits? none (padded 4 n ++ rest) = some (padded 4 n, rest) :=
  Text.scanDigits?_append (fun _ => Text.isDigit_of_mem_padded) (Text.padded_ne_nil 4 n)
    (fun _ h => nomatch h) hrest

/-- A year without a sign starts with a digit. -/
theorem scanYear?_plain {year : Int} (h : 0 ≤ year ∧ year ≤ 9999) (hrest : NoDigit rest) :
    scanYear? (padded 4 year.natAbs ++ rest) = some (year, rest) := by
  have hlt : year.natAbs < Nat.pow 10 4 := by
    change year.natAbs < 10000
    omega
  have hdigits : Text.scanDigits? (some 4) (padded 4 year.natAbs ++ rest) =
      some (padded 4 year.natAbs, rest) :=
    Text.scanDigits?_append (fun _ => Text.isDigit_of_mem_padded) (Text.padded_ne_nil 4 _)
      (by rintro _ ⟨⟩; exact Nat.le_of_eq (Text.length_padded (by decide) hlt)) hrest
  have hvalue : ((Double.natOfDigits (padded 4 year.natAbs) : Nat) : Int) = year := by
    rw [Text.natOfDigits_padded]
    omega
  rw [scanYear?, Text.skipBlanks_padded]
  split
  · next h => exact absurd h (Text.padded_append_ne rfl)
  · next h => exact absurd h (Text.padded_append_ne rfl)
  · simp [hdigits, hvalue]

/-- **A year reads as it is written.** -/
theorem scanYear?_yearChars (year : Int) (hrest : NoDigit rest) :
    scanYear? (yearChars year ++ rest) = some (year, rest) := by
  rw [yearChars]
  split
  · next h => exact scanYear?_plain h hrest
  · have hskip : ∀ sign : Char, Text.isBlank sign = false →
        Text.skipBlanks (sign :: (padded 4 year.natAbs ++ rest)) =
          sign :: (padded 4 year.natAbs ++ rest) := fun sign hsign =>
      Text.skipBlanks_of_head (by rintro _ ⟨⟩; exact hsign)
    have hvalue : Double.natOfDigits (padded 4 year.natAbs) = year.natAbs :=
      Text.natOfDigits_padded 4 _
    split
    · have hread : scanYear? ('-' :: (padded 4 year.natAbs ++ rest)) =
          some (-(year.natAbs : Int), rest) := by
        simp [scanYear?, hskip '-' rfl, scanDigits?_year _ hrest, hvalue]
      have hyear : -(year.natAbs : Int) = year := by omega
      rw [List.cons_append, hread, hyear]
    · have hread : scanYear? ('+' :: (padded 4 year.natAbs ++ rest)) =
          some ((year.natAbs : Int), rest) := by
        simp [scanYear?, hskip '+' rfl, scanDigits?_year _ hrest, hvalue]
      have hyear : (year.natAbs : Int) = year := by omega
      rw [List.cons_append, hread, hyear]

/-! ## Dates -/

/-- Two digits are enough for the month and the day. -/
theorem month_day_lt (d : Date) : d.civil.month < Nat.pow 10 2 ∧ d.civil.day < Nat.pow 10 2 := by
  have hcivil : isCivil d.civil := isCivil_civilOfDays d.days
  simp only [isCivil, Bool.and_eq_true, decide_eq_true_eq] at hcivil
  obtain ⟨⟨⟨-, hmonth⟩, -⟩, hday⟩ := hcivil
  have hlength : monthLength d.civil.year d.civil.month ≤ 31 := by
    rw [monthLength]
    split
    · split <;> decide
    · split <;> decide
  exact ⟨Nat.lt_of_le_of_lt hmonth (by decide),
    Nat.lt_of_le_of_lt (Nat.le_trans hday hlength) (by decide)⟩

/-- **Year, month and day read as they are written.** -/
theorem scanCivil?_chars (d : Date) (hrest : NoDigit rest) :
    scanCivil? (d.chars ++ rest) = some (d.civil, rest) := by
  obtain ⟨hmonth, hday⟩ := d.month_day_lt
  have hmark : ∀ cs, Text.scanMark? '-' ('-' :: cs) = some cs := fun _ => Text.scanMark?_cons rfl
  have hnoDigit : ∀ cs, NoDigit ('-' :: cs) := fun _ => noDigit_cons rfl
  simp [chars, scanCivil?, scanYear?_yearChars _ (hnoDigit _), hmark,
    Text.scanNat?_padded _ hmonth (hnoDigit _), Text.scanNat?_padded _ hday hrest]

/-- The date of the year, month and day of a date. -/
theorem ofCivil?_civil (d : Date) : ofCivil? d.civil = some d := by
  have hnumber : dayNumber d.civil = d.days := dayNumber_civilOfDays d.days
  rw [ofCivil?, civil, if_pos (isCivil_civilOfDays d.days), ← civil, hnumber, ofDays?,
    dif_pos d.inRange]

/-- **A date reads as it is written.** -/
theorem read?_text (d : Date) : read? d.text = some d := by
  have hscan : scanCivil? d.chars = some (d.civil, []) := by
    have hscan := scanCivil?_chars d noDigit_nil
    rwa [List.append_nil] at hscan
  rw [read?, text, String.toList_ofList, hscan]
  exact ofCivil?_civil d

/-! ## Lengths -/

/-- A date is written in no more than fifteen characters. -/
theorem length_chars_le (d : Date) : d.chars.length ≤ 15 := by
  obtain ⟨hmonth, hday⟩ := d.month_day_lt
  have hyear : (padded 4 d.civil.year.natAbs).length ≤ max 4 6 :=
    Text.length_padded_le (by decide) d.natAbs_year_lt
  have hmonth' : (padded 2 d.civil.month).length = 2 := Text.length_padded (by decide) hmonth
  have hday' : (padded 2 d.civil.day).length = 2 := Text.length_padded (by decide) hday
  have hsigned : (yearChars d.civil.year).length ≤ 7 := by
    rw [yearChars]
    split
    · omega
    · split <;> exact Nat.succ_le_succ hyear
  simp only [chars, List.length_append, List.length_cons]
  omega

end Fieldbook.Date
