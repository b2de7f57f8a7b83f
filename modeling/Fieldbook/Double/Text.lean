import Fieldbook.Double.Shortest

/-!
# Double/Text — how a number is written and read

One writer with two layouts. The plain layout (`Layout.plain`) writes every magnitude positionally
and whole numbers without a point; the detailed layout (`Layout.detailed`) keeps `.0` on whole
numbers and turns to an exponent from `1e16` on and below `1e-4`.

The reader takes the plain layout: digits with at most one point, after an optional sign, or the
names of the values that have no digits.
-/

namespace Fieldbook.Double

/-- The decisions of a written number. -/
structure Layout where
  /-- What follows the digits of a whole number. -/
  wholeEnd : String
  /-- Which exponents of the leading digit are written out in full. -/
  positional : Int → Bool

/-- Digits only, and a point where it is needed. -/
def Layout.plain : Layout := ⟨"", fun _ => true⟩

/-- A whole number keeps `.0`; an exponent is used from `1e16` on and below `1e-4`. -/
def Layout.detailed : Layout := ⟨".0", fun e => -5 < e && e < 16⟩

/-- The digits of a decimal with the point in its place and no exponent. -/
def Layout.written (l : Layout) (d : Decimal) : String :=
  let digits := Nat.toDigits 10 d.digits
  if 0 ≤ d.exponent then
    String.ofList (digits ++ List.replicate d.exponent.toNat '0') ++ l.wholeEnd
  else
    let places := (-d.exponent).toNat
    let padded := List.replicate (places + 1 - digits.length) '0' ++ digits
    let whole := padded.length - places
    String.ofList (padded.take whole ++ '.' :: padded.drop whole)

/-- One digit, the others behind a point, and the power of ten. -/
def Layout.scientific (d : Decimal) : String :=
  match Nat.toDigits 10 d.digits with
  | [] => ""
  | first :: rest =>
    let tail := if rest.isEmpty then [] else '.' :: rest
    String.ofList (first :: tail) ++ "e" ++ toString d.leading

/-- A number in a layout. A NaN is written without its sign. -/
def render (l : Layout) (x : Double) : String :=
  if x.isNaN then "NaN"
  else
    let magnitude :=
      if !x.isFinite then "inf"
      else if x.isZero then "0" ++ l.wholeEnd
      else
        let d := shortest x.significand x.power
        if l.positional d.leading then l.written d else Layout.scientific d
    if x.isNegative then "-" ++ magnitude else magnitude

/-- The plain text of a number. -/
def text (x : Double) : String := x.render .plain

/-! ## Reading -/

def digitValue (c : Char) : Nat := c.toNat - '0'.toNat

/-- The number that a row of digits writes. -/
def natOfDigits (cs : List Char) : Nat := cs.foldl (fun n c => 10 * n + digitValue c) 0

/-- Digits with at most one point, and at least one digit: the nearest double of the decimal, which
is infinite when the decimal is too large. -/
def readDigits? (cs : List Char) : Option Double :=
  let whole := cs.takeWhile Char.isDigit
  match cs.dropWhile Char.isDigit with
  | [] => if whole.isEmpty then none else some (nearest whole [])
  | '.' :: fraction =>
    if fraction.all Char.isDigit && !(whole.isEmpty && fraction.isEmpty) then
      some (nearest whole fraction)
    else none
  | _ => none
where
  nearest (whole fraction : List Char) : Double :=
    ofFloat (Float.ofScientific (natOfDigits (whole ++ fraction)) true fraction.length)

def readMagnitude? (cs : List Char) : Option Double :=
  if cs = ['N', 'a', 'N'] then some nan
  else if cs = ['i', 'n', 'f'] then some infinity
  else readDigits? cs

/-- Reads the plain text of a number. -/
def read? (s : String) : Option Double :=
  match s.toList with
  | '-' :: cs => (readMagnitude? cs).map neg
  | '+' :: cs => readMagnitude? cs
  | cs => readMagnitude? cs

end Fieldbook.Double
