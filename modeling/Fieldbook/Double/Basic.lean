/-!
# Double/Basic — binary64 numbers known by their bits

A `Double` is its 64 bits. Two of them are equal exactly when the bits are, so a NaN equals itself
and `0` differs from `-0`; this is the equality of stored values. Calculations compare with
`Double.ieeeEq` instead, where no NaN equals anything and the two zeros agree.

Arithmetic goes through the hardware format of the core library, whose operations round to nearest,
ties to even. A calculated NaN always has the bits of `Double.nan`.
-/

namespace Fieldbook

/-- A binary64 number, given by its sign bit, its 11 exponent bits and its 52 fraction bits. -/
structure Double where
  bits : UInt64
  deriving DecidableEq, Inhabited

namespace Double

def ofFloat (x : Float) : Double := ⟨x.toBits⟩

def toFloat (d : Double) : Float := Float.ofBits d.bits

/-- The quiet NaN with an empty payload. -/
def nan : Double := ⟨0x7ff8000000000000⟩

def infinity : Double := ⟨0x7ff0000000000000⟩

def zero : Double := ⟨0⟩

/-! ## Parts -/

def isNegative (d : Double) : Bool := d.bits >>> 63 == 1

/-- The biased exponent, `2047` for NaN and the infinities, `0` for zero and the subnormals. -/
def exponentField (d : Double) : Nat := ((d.bits >>> 52) &&& 0x7ff).toNat

def fractionField (d : Double) : Nat := (d.bits &&& 0xfffffffffffff).toNat

def isNaN (d : Double) : Bool := d.exponentField == 2047 && d.fractionField != 0

def isFinite (d : Double) : Bool := d.exponentField != 2047

def isZero (d : Double) : Bool := d.exponentField == 0 && d.fractionField == 0

/-- The whole number `m` of a finite magnitude `m · 2 ^ q`. -/
def significand (d : Double) : Nat :=
  if d.exponentField = 0 then d.fractionField else 0x10000000000000 + d.fractionField

/-- The power `q` of a finite magnitude `m · 2 ^ q`. -/
def power (d : Double) : Int :=
  if d.exponentField = 0 then -1074 else (d.exponentField : Int) - 1075

/-! ## Arithmetic -/

/-- The sign bit turned over; of a NaN too. -/
def neg (d : Double) : Double := ⟨d.bits ^^^ 0x8000000000000000⟩

def add (a b : Double) : Double := ofFloat (a.toFloat + b.toFloat)

def sub (a b : Double) : Double := ofFloat (a.toFloat - b.toFloat)

def mul (a b : Double) : Double := ofFloat (a.toFloat * b.toFloat)

def div (a b : Double) : Double := ofFloat (a.toFloat / b.toFloat)

/-- Equality of calculations: false beside a NaN, true between the two zeros. -/
def ieeeEq (a b : Double) : Bool := a.toFloat == b.toFloat

/-- The double nearest to a whole number, ties to even. -/
def ofInt (i : Int) : Double :=
  let magnitude := ofFloat (Float.ofScientific i.natAbs false 0)
  if i < 0 then magnitude.neg else magnitude

/-- A binary32 number is a binary64 number. -/
def ofSingleBits (bits : UInt32) : Double := ofFloat (Float32.ofBits bits).toFloat

end Double

end Fieldbook
