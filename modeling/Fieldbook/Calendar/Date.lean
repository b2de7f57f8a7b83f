import Fieldbook.Text.Scan

/-!
# Calendar/Date — days of the Gregorian calendar

A date is a day number, counted from 1 January 1970, within a range of about 262 000 years to either
side. Year, month and day are a view of it (`Date.civil`), computed in eras of 400 years that start
in March, so that the leap day is the last of its year.

A date is written `YYYY-MM-DD`; a year outside `0 … 9999` carries its sign and at least four digits.
The reader takes white space before each part and at the end, and shorter parts.
-/

namespace Fieldbook

/-- A day of the Gregorian calendar, by its distance from 1 January 1970. -/
structure Date where
  days : Int
  inRange : -96465292 ≤ days ∧ days ≤ 95026236
  deriving DecidableEq

/-- Year, month and day; year 0 comes before year 1. -/
structure Civil where
  year : Int
  month : Nat
  day : Nat
  deriving DecidableEq

namespace Date

/-- The date of a day number. -/
def ofDays? (days : Int) : Option Date :=
  if h : -96465292 ≤ days ∧ days ≤ 95026236 then some ⟨days, h⟩ else none

/-! ## Year, month and day -/

def isLeap (year : Int) : Bool := year % 4 == 0 && (year % 100 != 0 || year % 400 == 0)

def monthLength (year : Int) (month : Nat) : Nat :=
  if month = 2 then (if isLeap year then 29 else 28)
  else if month = 4 ∨ month = 6 ∨ month = 9 ∨ month = 11 then 30
  else 31

/-- Whether there is such a day. -/
def isCivil (c : Civil) : Bool :=
  1 ≤ c.month && c.month ≤ 12 && 1 ≤ c.day && c.day ≤ monthLength c.year c.month

/-- Days from the start of an era to the start of its year `y`, and from there to the start of its
month `m`, both counted from March. -/
def yearStart (y : Int) : Int := y * 365 + y / 4 - y / 100

def monthStart (m : Int) : Int := (153 * m + 2) / 5

/-- The day number of a year, month and day. -/
def dayNumber (c : Civil) : Int :=
  let year := if c.month ≤ 2 then c.year - 1 else c.year
  let month : Int := if c.month ≤ 2 then c.month + 9 else (c.month : Int) - 3
  year / 400 * 146097 + yearStart (year % 400) + monthStart month + c.day - 1 - 719468

/-- The year, month and day of a day number. -/
def civilOfDays (days : Int) : Civil :=
  let shifted := days + 719468
  let inEra := shifted % 146097
  let year := (inEra - inEra / 1460 + inEra / 36524 - inEra / 146096) / 365
  let inYear := inEra - yearStart year
  let month := (5 * inYear + 2) / 153
  let day := inYear - monthStart month + 1
  { year := year + shifted / 146097 * 400 + if 10 ≤ month then 1 else 0
    month := (if month < 10 then month + 3 else month - 9).toNat
    day := day.toNat }

def civil (d : Date) : Civil := civilOfDays d.days

/-- The date of a year, month and day, if there is such a day in range. -/
def ofCivil? (c : Civil) : Option Date :=
  if isCivil c then ofDays? (dayNumber c) else none

/-! ## Text -/

/-- Four digits, or a sign and at least four digits. -/
def yearChars (year : Int) : List Char :=
  let digits := Text.padded 4 year.natAbs
  if 0 ≤ year ∧ year ≤ 9999 then digits
  else if year < 0 then '-' :: digits
  else '+' :: digits

def chars (d : Date) : List Char :=
  yearChars d.civil.year ++ '-' :: Text.padded 2 d.civil.month ++ '-' :: Text.padded 2 d.civil.day

def text (d : Date) : String := String.ofList d.chars

/-! ## Reading -/

/-- A year: with a sign any number of digits, without at most four. -/
def scanYear? (cs : List Char) : Option (Int × List Char) :=
  match Text.skipBlanks cs with
  | '-' :: rest => do
    let (ds, rest) ← Text.scanDigits? none rest
    pure (-(Double.natOfDigits ds : Int), rest)
  | '+' :: rest => do
    let (ds, rest) ← Text.scanDigits? none rest
    pure ((Double.natOfDigits ds : Int), rest)
  | cs => do
    let (ds, rest) ← Text.scanDigits? (some 4) cs
    pure ((Double.natOfDigits ds : Int), rest)

/-- Year, month and day from the front of the characters. -/
def scanCivil? (cs : List Char) : Option (Civil × List Char) := do
  let (year, cs) ← scanYear? cs
  let cs ← Text.scanMark? '-' cs
  let (month, cs) ← Text.scanNat? (some 2) cs
  let cs ← Text.scanMark? '-' cs
  let (day, cs) ← Text.scanNat? (some 2) cs
  pure (⟨year, month, day⟩, cs)

/-- Reads a date. -/
def read? (s : String) : Option Date := do
  let (c, rest) ← scanCivil? s.toList
  if (Text.skipBlanks rest).isEmpty then ofCivil? c else none

end Date

end Fieldbook
