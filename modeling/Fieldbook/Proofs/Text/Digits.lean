import Fieldbook.Text.Scan

/-!
# Proofs/Text/Digits — numbers written in digits

A number in digits, with zeros before it to some width, reads as the number, where no further digit
follows (`scanNat?_padded`).  It takes as many digits as the width says, if the number has no more
(`length_padded`).
-/

namespace Fieldbook.Text

variable {c : Char} {cs ds rest : List Char} {width limit n : Nat}

/-! ## Digits among the characters -/

/-- What holds of the ASCII characters one by one. -/
theorem of_ascii {P : Char → Prop} (h : ∀ n : Fin 128, P (Char.ofNat n)) (hc : c.toNat < 128) :
    P c := by
  have hP := h ⟨c.toNat, hc⟩
  rwa [Char.ofNat_toNat] at hP

theorem toNat_of_isDigit (h : c.isDigit) : c.toNat < 128 := by
  simp only [Char.isDigit, Bool.and_eq_true, decide_eq_true_eq, UInt32.le_iff_toNat_le] at h
  have h57 : c.val.toNat ≤ 57 := h.2
  exact Nat.lt_of_le_of_lt h57 (by decide)

theorem isBlank_of_isDigit (h : c.isDigit) : isBlank c = false := by
  have hascii : c.toNat < 128 := toNat_of_isDigit h
  revert h
  refine of_ascii (P := fun c => c.isDigit = true → isBlank c = false) ?_ hascii
  decide +kernel

/-! ## Digits of a number -/

theorem isDigit_of_mem_padded (hc : c ∈ padded width n) : c.isDigit := by
  rcases List.mem_append.mp hc with hc | hc
  · rw [List.eq_of_mem_replicate hc]
    rfl
  · exact Nat.isDigit_of_mem_toDigits (by decide) (by decide) hc

/-- **A number in digits** is that number. -/
theorem natOfDigits_padded (width n : Nat) : Double.natOfDigits (padded width n) = n := by
  have hofDigits : ∀ cs, Double.natOfDigits cs = Nat.ofDigitChars 10 cs 0 := fun _ => rfl
  rw [hofDigits, padded, Nat.ofDigitChars_append, Nat.ofDigitChars_replicate_zero, Nat.mul_zero,
    Nat.ofDigitChars_ten_toDigits]

theorem le_length_padded (width n : Nat) : width ≤ (padded width n).length := by
  simp only [padded, List.length_append, List.length_replicate]
  omega

theorem padded_ne_nil (width n : Nat) : padded width n ≠ [] :=
  List.append_ne_nil_of_right_ne_nil _ Nat.toDigits_ne_nil

/-- A number takes no more than its digits and the width. -/
theorem length_padded_le {digits : Nat} (hdigits : 0 < digits) (h : n < Nat.pow 10 digits) :
    (padded width n).length ≤ max width digits := by
  have hlength : (Nat.toDigits 10 n).length ≤ digits :=
    (Nat.length_toDigits_le_iff (by decide) hdigits).mpr h
  simp only [padded, List.length_append, List.length_replicate]
  omega

/-- **The width of a number** that has no more digits. -/
theorem length_padded (hwidth : 0 < width) (h : n < Nat.pow 10 width) :
    (padded width n).length = width := by
  have hle : (padded width n).length ≤ max width width := length_padded_le hwidth h
  have hge : width ≤ (padded width n).length := le_length_padded width n
  omega

/-! ## Reading digits -/

/-- A text that goes on with no digit. -/
def NoDigit (rest : List Char) : Prop := ∀ c ∈ rest.head?, c.isDigit = false

theorem takeWhile_digits (hds : ∀ c ∈ ds, c.isDigit) (hrest : NoDigit rest) :
    (ds ++ rest).takeWhile Char.isDigit = ds := by
  have htake : rest.takeWhile Char.isDigit = [] := by
    rcases rest with _ | ⟨d, _⟩
    · rfl
    · simp [List.takeWhile, hrest d rfl]
  rw [List.takeWhile_append_of_pos hds, htake, List.append_nil]

/-- All digits are read that stand there, if they are not too many. -/
theorem scanDigits?_append {limit : Option Nat} (hds : ∀ c ∈ ds, c.isDigit) (hne : ds ≠ [])
    (hlimit : ∀ n ∈ limit, ds.length ≤ n) (hrest : NoDigit rest) :
    scanDigits? limit (ds ++ rest) = some (ds, rest) := by
  rcases limit with _ | n
  · simp [scanDigits?, takeWhile_digits hds hrest, hne]
  · have htake : ds.take n = ds := List.take_of_length_le (hlimit n rfl)
    simp [scanDigits?, takeWhile_digits hds hrest, htake, hne]

theorem skipBlanks_of_head (h : ∀ c ∈ cs.head?, isBlank c = false) : skipBlanks cs = cs := by
  rcases cs with _ | ⟨c, _⟩
  · rfl
  · simp [skipBlanks, h c rfl]

/-- A number in digits starts with none but a digit. -/
theorem padded_append_ne (hc : c.isDigit = false) : padded width n ++ rest ≠ c :: cs := by
  obtain ⟨d, ds, hds⟩ := List.exists_cons_of_ne_nil (padded_ne_nil width n)
  rw [hds]
  intro h
  obtain ⟨rfl, -⟩ := List.cons.inj h
  have hdigit : d.isDigit := isDigit_of_mem_padded (hds ▸ List.mem_cons_self)
  exact absurd hdigit (Bool.eq_false_iff.mp hc)

theorem skipBlanks_padded (width n : Nat) (rest : List Char) :
    skipBlanks (padded width n ++ rest) = padded width n ++ rest := by
  obtain ⟨c, cs, hcs⟩ := List.exists_cons_of_ne_nil (padded_ne_nil width n)
  refine skipBlanks_of_head fun d hd => ?_
  rw [hcs] at hd
  obtain rfl : c = d := Option.some.inj hd
  exact isBlank_of_isDigit (isDigit_of_mem_padded (hcs ▸ List.mem_cons_self))

/-- **A number of a given width reads as the number.** -/
theorem scanNat?_padded (hwidth : 0 < width) (h : n < Nat.pow 10 width) (hrest : NoDigit rest) :
    scanNat? (some width) (padded width n ++ rest) = some (n, rest) := by
  have hdigits : scanDigits? (some width) (padded width n ++ rest) = some (padded width n, rest) :=
    scanDigits?_append (fun _ => isDigit_of_mem_padded) (padded_ne_nil width n)
      (by rintro _ ⟨⟩; exact Nat.le_of_eq (length_padded hwidth h)) hrest
  simp [scanNat?, skipBlanks_padded, hdigits, natOfDigits_padded]

theorem scanMark?_cons (h : isBlank c = false) : scanMark? c (c :: rest) = some rest := by
  have hskip : skipBlanks (c :: rest) = c :: rest :=
    skipBlanks_of_head (by rintro _ ⟨⟩; exact h)
  simp [scanMark?, hskip]

end Fieldbook.Text
