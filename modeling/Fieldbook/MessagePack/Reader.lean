import Fieldbook.MessagePack.Writer

/-!
# MessagePack/Reader — reading the binary format

A reader takes something from the front of the bytes and leaves the rest, or fails. Heads of every
width are read; what may stand where a text, a number, a name or a row is due is decided by the
readers for these. Nesting is bounded: `depth` counts how many more rows and maps may be entered.
-/

namespace Fieldbook.MessagePack

/-- Takes a value from the front of the bytes, or fails. -/
abbrev Reader := StateT (List UInt8) Option

/-- The head of a piece: its kind, with its value or the number of what follows. -/
inductive Head where
  | nil
  | boolean (b : Bool)
  | unsigned (n : Nat)
  | signed (i : Int)
  | single (bits : Nat)
  | double (bits : Nat)
  | text (length : Nat)
  | binary (length : Nat)
  | array (count : Nat)
  | map (count : Nat)
  /-- An extension; its length counts its type. -/
  | extension (length : Nat)
  deriving DecidableEq

/-- The number that bytes write, the highest first. -/
def ofBigEndian (bytes : List UInt8) : Nat := bytes.foldl (fun n b => 256 * n + b.toNat) 0

/-- A number of `width` bytes in two's complement. -/
def twosComplement (width n : Nat) : Int :=
  if n < Nat.pow 2 (8 * width - 1) then n else (n : Int) - (Nat.pow 2 (8 * width) : Nat)

/-! ## Bytes and heads -/

def take (n : Nat) : Reader (List UInt8) := fun bytes =>
  if n ≤ bytes.length then some (bytes.take n, bytes.drop n) else none

def number (width : Nat) : Reader Nat := do return ofBigEndian (← take width)

/-- The head that starts with a byte. -/
def headOf (b : Nat) : Reader Head :=
  if b < 0x80 then pure (.unsigned b)
  else if b < 0x90 then pure (.map (b - 0x80))
  else if b < 0xa0 then pure (.array (b - 0x90))
  else if b < 0xc0 then pure (.text (b - 0xa0))
  else if 0xe0 ≤ b then pure (.signed ((b : Int) - 256))
  else match b with
    | 0xc0 => pure .nil
    | 0xc2 => pure (.boolean false)
    | 0xc3 => pure (.boolean true)
    | 0xc4 => return .binary (← number 1)
    | 0xc5 => return .binary (← number 2)
    | 0xc6 => return .binary (← number 4)
    | 0xc7 => return .extension (1 + (← number 1))
    | 0xc8 => return .extension (1 + (← number 2))
    | 0xc9 => return .extension (1 + (← number 4))
    | 0xca => return .single (← number 4)
    | 0xcb => return .double (← number 8)
    | 0xcc => return .unsigned (← number 1)
    | 0xcd => return .unsigned (← number 2)
    | 0xce => return .unsigned (← number 4)
    | 0xcf => return .unsigned (← number 8)
    | 0xd0 => return .signed (twosComplement 1 (← number 1))
    | 0xd1 => return .signed (twosComplement 2 (← number 2))
    | 0xd2 => return .signed (twosComplement 4 (← number 4))
    | 0xd3 => return .signed (twosComplement 8 (← number 8))
    | 0xd4 => pure (.extension 2)
    | 0xd5 => pure (.extension 3)
    | 0xd6 => pure (.extension 5)
    | 0xd7 => pure (.extension 9)
    | 0xd8 => pure (.extension 17)
    | 0xd9 => return .text (← number 1)
    | 0xda => return .text (← number 2)
    | 0xdb => return .text (← number 4)
    | 0xdc => return .array (← number 2)
    | 0xdd => return .array (← number 4)
    | 0xde => return .map (← number 2)
    | 0xdf => return .map (← number 4)
    | _ => failure

def head : Reader Head := fun bytes =>
  match bytes with
  | [] => none
  | b :: rest => headOf b.toNat rest

/-- A reader `n` times over. -/
def many {α : Type} (n : Nat) (item : Reader α) : Reader (List α) :=
  match n with
  | 0 => pure []
  | n + 1 => do
    let a ← item
    let rest ← many n item
    pure (a :: rest)

/-! ## Values -/

def utf8 (n : Nat) : Reader String := do
  match Text.ofUtf8? (← take n) with
  | some s => pure s
  | none => failure

/-- A text, which may be given as plain bytes. -/
def readText : Reader String := do
  match ← head with
  | .text n | .binary n => utf8 n
  | _ => failure

/-- A text that may not be given as plain bytes. -/
def readWrittenText : Reader String := do
  match ← head with
  | .text n => utf8 n
  | _ => failure

/-- A text, or nothing in its place. -/
def readText? : Reader (Option String) := fun bytes =>
  match bytes with
  | 0xc0 :: rest => some (none, rest)
  | _ => (do return some (← readText) : Reader (Option String)) bytes

def readBoolean : Reader Bool := do
  match ← head with
  | .boolean b => pure b
  | _ => failure

/-- A number of any width, whole or not. -/
def readDouble : Reader Double := do
  match ← head with
  | .double bits => pure ⟨UInt64.ofNat bits⟩
  | .single bits => pure (.ofSingleBits (UInt32.ofNat bits))
  | .unsigned n => pure (.ofInt n)
  | .signed i => pure (.ofInt i)
  | _ => failure

/-- A whole number within bounds. -/
def readWhole (low high : Int) : Reader Int := do
  let i : Int ← match ← head with
    | .unsigned n => pure (n : Int)
    | .signed i => pure i
    | _ => failure
  if low ≤ i ∧ i ≤ high then pure i else failure

def readInt32 : Reader Int32 := do return Int32.ofInt (← readWhole (-0x80000000) 0x7fffffff)

def readUInt32 : Reader UInt32 := do return UInt32.ofNat (← readWhole 0 0xffffffff).toNat

/-! ## Names and rows -/

/-- Which of some names stands here, by its text or by its place; nothing for another name. -/
def readName (names : List String) : Reader (Option Nat) := do
  match ← head with
  | .text n | .binary n => do
    let bytes ← take n
    pure (names.findIdx? fun name => Text.utf8 name == bytes)
  | .unsigned n => pure (if n < names.length then some n else none)
  | _ => failure

/-- Passes over a piece of any kind. -/
def skip : Nat → Reader Unit
  | 0 => do
    match ← head with
    | .text n | .binary n => discard (take n)
    | .array _ | .map _ | .extension _ => failure
    | _ => pure ()
  | depth + 1 => do
    match ← head with
    | .text n | .binary n | .extension n => discard (take n)
    | .array n => discard (many n (skip depth))
    | .map n => discard (many (2 * n) (skip depth))
    | _ => pure ()

/-- A row of any number of equal pieces, none of which is a number. Plain bytes are a row of small
numbers, so that they can only stand for the empty row. -/
def readArray {α : Type} (depth : Nat) (item : Reader α) : Reader (List α) := do
  match depth, ← head with
  | _ + 1, .array n => many n item
  | _, .binary 0 => pure []
  | _, _ => failure

/-- A part of a pair. -/
structure PairPart (α : Type) where
  name : String
  read : Reader α
  /-- The part that a byte stands for in a row of plain bytes, if any. -/
  ofByte? : UInt8 → Option α

/-- A part that no number can stand for. -/
def PairPart.named {α : Type} (name : String) (read : Reader α) : PairPart α :=
  ⟨name, read, fun _ => none⟩

/-- The parts of a pair that is given by names: each of the two at most once, others passed over. -/
def namedParts {α β : Type} (a : PairPart α) (b : PairPart β) (depth : Nat) :
    Nat → Option α × Option β → Reader (Option α × Option β)
  | 0, found => pure found
  | n + 1, (first, second) => do
    match ← readName [a.name, b.name] with
    | some 0 =>
      if first.isSome then failure else namedParts a b depth n (some (← a.read), second)
    | some _ =>
      if second.isSome then failure else namedParts a b depth n (first, some (← b.read))
    | none => do
      skip depth
      namedParts a b depth n (first, second)

/-- The pair that the first two of some plain bytes stand for; the others count for nothing. -/
def pairOfBytes? {α β : Type} (a : PairPart α) (b : PairPart β) :
    List UInt8 → Option (α × β)
  | x :: y :: _ => do return (← a.ofByte? x, ← b.ofByte? y)
  | _ => none

/-- A pair of parts, as a row of both, as plain bytes or by their names. A second part without a
name stands for `missing`, if that is something. Only rows and maps take from the depth. -/
def readPair {α β : Type} (depth : Nat) (a : PairPart α) (b : PairPart β) (missing : Option β) :
    Reader (α × β) := do
  match depth, ← head with
  | _ + 1, .array 2 => do
    let x ← a.read
    let y ← b.read
    pure (x, y)
  | depth + 1, .map n => do
    match ← namedParts a b depth n (none, none) with
    | (some x, some y) => pure (x, y)
    | (some x, none) =>
      match missing with
      | some y => pure (x, y)
      | none => failure
    | _ => failure
  | _, .binary n => do
    match pairOfBytes? a b (← take n) with
    | some found => pure found
    | none => failure
  | _, _ => failure

end Fieldbook.MessagePack
