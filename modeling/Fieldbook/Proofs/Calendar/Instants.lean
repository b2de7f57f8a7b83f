import Fieldbook.Calendar.Instant
import Fieldbook.Proofs.Calendar.Dates

/-!
# Proofs/Calendar/Instants — instants read as they are written

An instant is written by its date and its time of day, which are read as they are written
(`Instant.read?_text`).  Only the last second of a minute can be a leap second, and second 60 is read
as that.
-/

namespace Fieldbook.Instant

open Text (NoDigit padded)

variable {nanos width unit : Nat} {rest : List Char}

/-! ## Fractions of a second -/

/-- A fraction in `width` digits. -/
theorem scanFraction?_padded (hwidth : 0 < width ∧ width ≤ 9) (h : nanos < Nat.pow 10 width)
    (hrest : NoDigit rest) : scanFraction? ('.' :: padded width nanos ++ rest) =
      some (nanos * Nat.pow 10 (9 - width), rest) := by
  have hlength : (padded width nanos).length = width := Text.length_padded hwidth.1 h
  have hdigits : Text.scanDigits? (some 9) (padded width nanos ++ rest) =
      some (padded width nanos, rest) :=
    Text.scanDigits?_append (fun _ => Text.isDigit_of_mem_padded) (Text.padded_ne_nil width _)
      (by rintro _ ⟨⟩; exact Nat.le_trans (Nat.le_of_eq hlength) hwidth.2) hrest
  have hdrop : rest.dropWhile Char.isDigit = rest := by
    rcases rest with _ | ⟨d, _⟩
    · rfl
    · simp [List.dropWhile, hrest d rfl]
  simp [scanFraction?, hdigits, hlength, hdrop, Text.natOfDigits_padded]

/-- **A fraction of a second reads as it is written.** -/
theorem scanFraction?_fractionChars (h : nanos < 1000000000) :
    scanFraction? (fractionChars nanos ++ ['Z']) = some (nanos, ['Z']) := by
  have hrest : NoDigit ['Z'] := Date.noDigit_cons rfl
  rw [fractionChars]
  split
  · next hzero =>
    subst hzero
    rfl
  split
  · next hmillis =>
    have hlt : nanos / 1000000 < 1000 := by omega
    have hvalue : nanos / 1000000 * 1000000 = nanos := by omega
    rw [scanFraction?_padded (by decide) hlt hrest]
    exact congrArg (fun n => some (n, ['Z'])) hvalue
  split
  · next hmicros =>
    have hlt : nanos / 1000 < 1000000 := by omega
    have hvalue : nanos / 1000 * 1000 = nanos := by omega
    rw [scanFraction?_padded (by decide) hlt hrest]
    exact congrArg (fun n => some (n, ['Z'])) hvalue
  · rw [scanFraction?_padded (by decide) h hrest]
    exact congrArg (fun n => some (n, ['Z'])) (Nat.mul_one nanos)

theorem noDigit_fractionChars (nanos : Nat) : NoDigit (fractionChars nanos ++ ['Z']) := by
  rw [fractionChars]
  split
  · exact Date.noDigit_cons rfl
  split
  · exact Date.noDigit_cons rfl
  split <;> exact Date.noDigit_cons rfl

/-! ## Times of day -/

/-- Only the last second of a minute is a leap second. -/
theorem leap_cases (t : Instant) : t.nanos / 1000000000 = 0 ∨
    t.nanos / 1000000000 = 1 ∧ t.secondOfDay % 60 = 59 := by
  have hnanos := t.nanos_lt
  simp only [secondOfDay]
  omega

theorem secondOfDay_lt (t : Instant) : t.secondOfDay < 86400 := by
  simp only [secondOfDay]
  omega

/-- Two digits are enough for the hour, the minute and the second. -/
theorem time_lt (t : Instant) : t.secondOfDay / 3600 < Nat.pow 10 2 ∧
    t.secondOfDay / 60 % 60 < Nat.pow 10 2 ∧
    t.secondOfDay % 60 + t.nanos / 1000000000 < Nat.pow 10 2 := by
  have hday := t.secondOfDay_lt
  have hleap := t.leap_cases
  have hhundred : Nat.pow 10 2 = 100 := rfl
  omega

/-- **A time of day reads as it is written.** -/
theorem scanTime?_timeChars (t : Instant) :
    scanTime? (t.timeChars ++ ['Z']) = some (t.secondOfDay, t.nanos, ['Z']) := by
  obtain ⟨hhour, hminute, hsecond⟩ := t.time_lt
  have hday := t.secondOfDay_lt
  have hleap := t.leap_cases
  have hwithin : t.secondOfDay / 3600 < 24 ∧ t.secondOfDay / 60 % 60 < 60 ∧
      t.secondOfDay % 60 + t.nanos / 1000000000 ≤ 60 := by omega
  -- Second 60 is taken back to 59, and its nanoseconds are those of a leap second.
  have hparts : t.secondOfDay / 3600 * 3600 + t.secondOfDay / 60 % 60 * 60 +
        (t.secondOfDay % 60 + t.nanos / 1000000000 -
          (t.secondOfDay % 60 + t.nanos / 1000000000) / 60) = t.secondOfDay ∧
      t.nanos % 1000000000 + (t.secondOfDay % 60 + t.nanos / 1000000000) / 60 * 1000000000 =
        t.nanos := by omega
  have hmark : ∀ cs, Text.scanMark? ':' (':' :: cs) = some cs := fun _ => Text.scanMark?_cons rfl
  have hnoDigit : ∀ cs, NoDigit (':' :: cs) := fun _ => Date.noDigit_cons rfl
  have hfraction := scanFraction?_fractionChars (Nat.mod_lt t.nanos (by decide : 0 < 1000000000))
  have hskip : Text.skipBlanks ['Z'] = ['Z'] := rfl
  simp [timeChars, scanTime?, Text.scanNat?_padded _ hhour (hnoDigit _), hmark,
    Text.scanNat?_padded _ hminute (hnoDigit _),
    Text.scanNat?_padded _ hsecond (noDigit_fractionChars _), hfraction, hskip, hwithin, hparts]

/-! ## Instants -/

/-- The instant of the date and the second of day of an instant. -/
theorem ofParts?_date (t : Instant) :
    ofParts? (t.date.days * 86400 + t.secondOfDay) t.nanos = some t := by
  have hseconds : t.date.days * 86400 + t.secondOfDay = t.seconds := by
    simp only [date, secondOfDay]
    omega
  rw [hseconds, ofParts?, dif_pos ⟨t.inRange, t.nanos_lt⟩]

/-- **An instant reads as it is written.** -/
theorem read?_text (t : Instant) : read? t.text = some t := by
  have hcivil : Date.scanCivil? t.chars = some (t.date.civil, 'T' :: (t.timeChars ++ ['Z'])) := by
    rw [chars, List.append_assoc, List.cons_append]
    exact Date.scanCivil?_chars t.date (Date.noDigit_cons rfl)
  have hoffset : scanOffset? ['Z'] = some (0, []) := rfl
  have hskip : Text.skipBlanks [] = [] := rfl
  simp [read?, text, hcivil, Date.ofCivil?_civil, scanTime?_timeChars, hoffset, hskip, ofParts?_date]

/-! ## Lengths -/

theorem length_fractionChars_le (h : nanos < 1000000000) : (fractionChars nanos).length ≤ 10 := by
  have hdigits : ∀ {width n : Nat}, width ≤ 9 → n ≤ nanos → (padded width n).length + 1 ≤ 10 :=
    fun {width n} hwidth hn => by
      have hlt : n < Nat.pow 10 9 := Nat.lt_of_le_of_lt hn h
      have hle : (padded width n).length ≤ max width 9 := Text.length_padded_le (by decide) hlt
      omega
  rw [fractionChars]
  split
  · exact Nat.zero_le _
  split
  · exact hdigits (by decide) (Nat.div_le_self _ _)
  split
  · exact hdigits (by decide) (Nat.div_le_self _ _)
  · exact hdigits (by decide) (Nat.le_refl _)

/-- An instant is written in no more than 35 characters. -/
theorem length_chars_le (t : Instant) : t.chars.length ≤ 35 := by
  obtain ⟨hhour, hminute, hsecond⟩ := t.time_lt
  have hdate := t.date.length_chars_le
  have hhour' : (padded 2 (t.secondOfDay / 3600)).length = 2 := Text.length_padded (by decide) hhour
  have hminute' : (padded 2 (t.secondOfDay / 60 % 60)).length = 2 :=
    Text.length_padded (by decide) hminute
  have hsecond' : (padded 2 (t.secondOfDay % 60 + t.nanos / 1000000000)).length = 2 :=
    Text.length_padded (by decide) hsecond
  have hfraction := length_fractionChars_le (Nat.mod_lt t.nanos (by decide : 0 < 1000000000))
  simp only [chars, timeChars, List.length_append, List.length_cons, List.length_nil]
  omega

end Fieldbook.Instant
