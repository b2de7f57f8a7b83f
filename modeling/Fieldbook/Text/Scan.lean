import Fieldbook.Double.Text
import Fieldbook.Text.Blank

/-!
# Text/Scan — reading fields from the front of a text

Small steps for dates and times: each takes something from the front of the characters and returns
what is left, or nothing when it is not there.
-/

namespace Fieldbook.Text

/-- What follows the white space at the front. -/
def skipBlanks (cs : List Char) : List Char := cs.dropWhile isBlank

/-- A row of at least one digit, at most `limit` of them taken. -/
def scanDigits? (limit : Option Nat) (cs : List Char) : Option (List Char × List Char) :=
  let run := cs.takeWhile Char.isDigit
  let taken := match limit with
    | some n => run.take n
    | none => run
  if taken.isEmpty then none else some (taken, cs.drop taken.length)

/-- A number of at most `limit` digits, after white space. -/
def scanNat? (limit : Option Nat) (cs : List Char) : Option (Nat × List Char) :=
  (scanDigits? limit (skipBlanks cs)).map fun (ds, rest) => (Double.natOfDigits ds, rest)

/-- One given character, after white space. -/
def scanMark? (c : Char) (cs : List Char) : Option (List Char) :=
  match skipBlanks cs with
  | [] => none
  | d :: rest => if d = c then some rest else none

/-- A number in at least `width` digits. -/
def padded (width n : Nat) : List Char :=
  let ds := Nat.toDigits 10 n
  List.replicate (width - ds.length) '0' ++ ds

end Fieldbook.Text
