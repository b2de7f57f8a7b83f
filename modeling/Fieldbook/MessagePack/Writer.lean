import Fieldbook.Double.Basic
import Fieldbook.Text.Bytes

/-!
# MessagePack/Writer — the pieces of the binary format

Every piece is a head and, for texts, the bytes after it. Each head has the shortest form for its
number or length; numbers from zero on are written as unsigned ones. Of the length of a text and of
the number of pieces in a row four bytes are kept, and what does not fit there is lost.
-/

namespace Fieldbook.MessagePack

/-- The `width` low bytes of a number, the highest first. -/
def bigEndian : Nat → Nat → List UInt8
  | 0, _ => []
  | width + 1, n => UInt8.ofNat (n / Nat.pow 256 width) :: bigEndian width n

def byte (n : Nat) : UInt8 := UInt8.ofNat n

/-- A head byte and a length of `width` bytes. -/
def headed (head width n : Nat) : List UInt8 := byte head :: bigEndian width n

def nil : List UInt8 := [0xc0]

def boolean (b : Bool) : List UInt8 := [if b then 0xc3 else 0xc2]

def double (x : Double) : List UInt8 := headed 0xcb 8 x.bits.toNat

def natural (n : Nat) : List UInt8 :=
  if n < 128 then [byte n]
  else if n < 0x100 then headed 0xcc 1 n
  else if n < 0x10000 then headed 0xcd 2 n
  else if n < 0x100000000 then headed 0xce 4 n
  else headed 0xcf 8 n

/-- A whole number; a negative one in two's complement. -/
def integer (i : Int) : List UInt8 :=
  if 0 ≤ i then natural i.toNat
  else if -32 ≤ i then [byte (256 + i).toNat]
  else if -0x80 ≤ i then headed 0xd0 1 (0x100 + i).toNat
  else if -0x8000 ≤ i then headed 0xd1 2 (0x10000 + i).toNat
  else if -0x80000000 ≤ i then headed 0xd2 4 (0x100000000 + i).toNat
  else headed 0xd3 8 (0x10000000000000000 + i).toNat

/-- What is kept of a count. -/
def countKept (n : Nat) : Nat := n % 0x100000000

/-- The head of a text of `n` bytes. -/
def textHead (n : Nat) : List UInt8 :=
  let n := countKept n
  if n < 32 then [byte (0xa0 + n)]
  else if n < 0x100 then headed 0xd9 1 n
  else if n < 0x10000 then headed 0xda 2 n
  else headed 0xdb 4 n

def text (s : String) : List UInt8 :=
  let bytes := Text.utf8 s
  textHead bytes.length ++ bytes

/-- The head of a row of `n` pieces. -/
def arrayHead (n : Nat) : List UInt8 :=
  let n := countKept n
  if n < 16 then [byte (0x90 + n)]
  else if n < 0x10000 then headed 0xdc 2 n
  else headed 0xdd 4 n

/-- The head of `n` pairs of pieces. -/
def mapHead (n : Nat) : List UInt8 :=
  let n := countKept n
  if n < 16 then [byte (0x80 + n)]
  else if n < 0x10000 then headed 0xde 2 n
  else headed 0xdf 4 n

end Fieldbook.MessagePack
