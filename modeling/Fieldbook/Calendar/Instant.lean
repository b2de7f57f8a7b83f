import Fieldbook.Calendar.Date

/-!
# Calendar/Instant — points in time

An instant is a number of whole seconds since the start of 1970 in universal time, rounded down, and
nanoseconds on top of them. Nanoseconds from one thousand million on stand for a leap second, which
only the last second of a minute may have.

An instant is written as its date, `T`, its time of day and `Z`, with as many groups of three
fraction digits as it needs. The reader takes the same with another offset from universal time, a
blank in place of `T`, and white space between the parts.
-/

namespace Fieldbook

/-- A point in time. -/
structure Instant where
  seconds : Int
  nanos : Nat
  inRange : -8334601228800 ≤ seconds ∧ seconds ≤ 8210266876799
  nanos_lt : nanos < 1000000000 ∨ (nanos < 2000000000 ∧ seconds % 60 = 59)
  deriving DecidableEq

namespace Instant

def ofParts? (seconds : Int) (nanos : Nat) : Option Instant :=
  if h : (-8334601228800 ≤ seconds ∧ seconds ≤ 8210266876799) ∧
      (nanos < 1000000000 ∨ (nanos < 2000000000 ∧ seconds % 60 = 59)) then
    some ⟨seconds, nanos, h.1, h.2⟩
  else none

/-- The instant a number of milliseconds after the start of 1970. -/
def ofMillis? (ms : Int) : Option Instant := ofParts? (ms / 1000) ((ms % 1000).toNat * 1000000)

/-- The date in universal time. -/
def date (t : Instant) : Date := ⟨t.seconds / 86400, by have := t.inRange; omega⟩

/-- The seconds since the start of the day. -/
def secondOfDay (t : Instant) : Nat := (t.seconds % 86400).toNat

/-! ## Text -/

/-- Nothing, or a point and three, six or nine digits. -/
def fractionChars (nanos : Nat) : List Char :=
  if nanos = 0 then []
  else if nanos % 1000000 = 0 then '.' :: Text.padded 3 (nanos / 1000000)
  else if nanos % 1000 = 0 then '.' :: Text.padded 6 (nanos / 1000)
  else '.' :: Text.padded 9 nanos

/-- The time of day; a leap second is second 60. -/
def timeChars (t : Instant) : List Char :=
  let s := t.secondOfDay
  let leap := t.nanos / 1000000000
  Text.padded 2 (s / 3600) ++ ':' :: Text.padded 2 (s / 60 % 60) ++
    ':' :: Text.padded 2 (s % 60 + leap) ++ fractionChars (t.nanos % 1000000000)

def chars (t : Instant) : List Char := t.date.chars ++ 'T' :: t.timeChars ++ ['Z']

def text (t : Instant) : String := String.ofList t.chars

/-! ## Reading -/

/-- Digits after a point, of which the first nine count. -/
def scanFraction? : List Char → Option (Nat × List Char)
  | '.' :: rest => do
    let (ds, rest) ← Text.scanDigits? (some 9) rest
    pure (Double.natOfDigits ds * Nat.pow 10 (9 - ds.length), rest.dropWhile Char.isDigit)
  | cs => some (0, cs)

/-- A time of day as seconds and nanoseconds; second 60 is a leap second. -/
def scanTime? (cs : List Char) : Option (Nat × Nat × List Char) := do
  let (hour, cs) ← Text.scanNat? (some 2) cs
  let cs ← Text.scanMark? ':' cs
  let (minute, cs) ← Text.scanNat? (some 2) cs
  let cs ← Text.scanMark? ':' cs
  let (second, cs) ← Text.scanNat? (some 2) cs
  let (nanos, cs) ← scanFraction? cs
  if hour < 24 ∧ minute < 60 ∧ second ≤ 60 then
    let leap := second / 60
    pure (hour * 3600 + minute * 60 + (second - leap), nanos + leap * 1000000000,
      Text.skipBlanks cs)
  else none

/-- Two digits, the first of them below `bound`. -/
def scanPair? (bound : Nat) : List Char → Option (Nat × List Char)
  | a :: b :: rest =>
    if a.isDigit ∧ b.isDigit ∧ Double.digitValue a < bound then
      some (10 * Double.digitValue a + Double.digitValue b, rest)
    else none
  | _ => none

/-- The seconds by which a zone is ahead of universal time. -/
def scanOffset? (cs : List Char) : Option (Int × List Char) :=
  match cs with
  | [] => none
  | c :: rest =>
    if c = 'Z' ∨ c = 'z' then some (0, rest)
    else if (cs.take 3).map Char.toLower = ['u', 't', 'c'] then some (0, cs.drop 3)
    else if c = '+' ∨ c = '-' ∨ c = '−' then do
      let (hours, rest) ← scanPair? 10 rest
      let (minutes, rest) ←
        scanPair? 6 (rest.dropWhile fun c => c == ':' || Text.isBlank c)
      let seconds : Int := hours * 3600 + minutes * 60
      if hours < 24 then pure (if c = '+' then seconds else -seconds, rest) else none
    else none

/-- Reads an instant. -/
def read? (s : String) : Option Instant := do
  let (civil, cs) ← Date.scanCivil? s.toList
  let date ← Date.ofCivil? civil
  match cs with
  | c :: cs =>
    if c = 'T' ∨ c = 't' ∨ c = ' ' then
      let (second, nanos, cs) ← scanTime? cs
      let (offset, cs) ← scanOffset? cs
      if (Text.skipBlanks cs).isEmpty then
        ofParts? (date.days * 86400 + second - offset) nanos
      else none
    else none
  | [] => none

end Instant

end Fieldbook
