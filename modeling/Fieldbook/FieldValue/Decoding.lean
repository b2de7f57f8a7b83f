import Fieldbook.FieldValue.Kind
import Fieldbook.MessagePack.Reader

/-!
# FieldValue/Decoding — reading the binary form of values

The reader of values follows the nesting of rows and maps, of which it enters no more than a given
number at once. What follows a complete value is left alone. Of a key that a record repeats the last
value counts.
-/

namespace Fieldbook

open MessagePack

namespace FieldValue

/-- How many rows and maps may be nested in each other. -/
def nestingLimit : Nat := 1023

def readIds (depth : Nat) : Reader (List ResourceId) :=
  readArray depth do return ⟨← readText⟩

def readDate : Reader Date := do
  match Date.read? (← readWrittenText) with
  | some d => pure d
  | none => failure

def readInstant : Reader Instant := do
  match Instant.read? (← readWrittenText) with
  | some t => pure t
  | none => failure

/-- A part of a pair that is a number. -/
def doublePart (name : String) : PairPart Double :=
  ⟨name, readDouble, fun b => some (.ofInt b.toNat)⟩

/-- The year of a month; plain bytes reach no further than the year 255. -/
def yearPart : PairPart Int32 := ⟨"year", readInt32, fun b => some (.ofNat b.toNat)⟩

/-- The number of a month within its year. -/
def monthPart : PairPart UInt32 := ⟨"month", readUInt32, fun b => some b.toUInt32⟩

/-- One key of a record and its value. -/
def readField (value : Reader FieldValue) : Reader (String × FieldValue) := do
  let key ← readText
  let v ← value
  pure (key, v)

/-- The map of a record, its values read by `value`. -/
def readFields (depth : Nat) (value : Reader FieldValue) : Reader Record := do
  match depth, ← head with
  | _ + 1, .map n => return Keyed.ofList (← many n (readField value))
  | _, _ => failure

/-- The entries of a record that is given by the name of its only part. -/
def namedFields (value : Reader FieldValue) (depth : Nat) : Nat → Option Record → Reader Record
  | 0, some r => pure r
  | 0, none => failure
  | n + 1, found => do
    match ← readName ["fields"] with
    | some _ =>
      if found.isSome then failure else namedFields value depth n (some (← readFields depth value))
    | none => do
      skip depth
      namedFields value depth n found

/-- A record, as a row of one map or by the name of the map. -/
def readRecord (depth : Nat) (value : Reader FieldValue) : Reader Record := do
  match depth, ← head with
  | depth + 1, .array 1 => readFields depth value
  | depth + 1, .map n => namedFields value depth n none
  | _, _ => failure

/-- The content of a kind. The items of a list and the values of a record have readers of their own,
as they lie one and two steps deeper. -/
def readContent (depth : Nat) (item inner : Reader FieldValue) : Kind → Reader FieldValue
  | .text => return .text (← readText)
  | .quantity => do
    let (x, units) ← readPair depth (doublePart "value") (.named "units" readText?) (some none)
    pure (.quantity x units)
  | .boolean => return .boolean (← readBoolean)
  | .choice => return .choice (← readIds depth)
  | .reference => return .reference (← readIds depth)
  | .barcode => return .barcode (← readText)
  | .narrative => return .narrative (← readText)
  | .geoPoint => do
    let (a, b) ← readPair depth (doublePart "latitude") (doublePart "longitude") none
    pure (.geoPoint a b)
  | .image => do
    let (b, m) ← readPair depth (.named "blob_id" readText) (.named "mime_type" readText) none
    pure (.image b m)
  | .localDate => return .localDate (← readDate)
  | .month => do
    let (y, m) ← readPair depth yearPart monthPart none
    pure (.month y m)
  | .year => return .year (← readInt32)
  | .localDateInterval => do
    let (a, b) ← readPair depth (.named "start" readDate) (.named "end" readDate) none
    pure (.localDateInterval a b)
  | .instant => return .instant (← readInstant)
  | .expr => return .expr (← readText)
  | .record => return .record (← readRecord depth inner)
  | .list => return .list (← readArray depth item)

/-- A value: a map of one entry, from a kind to its content. -/
def readEntry (depth : Nat) (item inner : Reader FieldValue) : Reader FieldValue := do
  match ← head with
  | .map 1 =>
    match ← readName (Kind.all.map Kind.name) with
    | some i =>
      match Kind.all[i]? with
      | some k => readContent depth item inner k
      | none => failure
    | none => failure
  | _ => failure

/-- A value with at most `depth` rows and maps nested in each other. -/
def readValue : Nat → Reader FieldValue
  | 0 => fun bytes => readEntry 0 failure failure bytes
  | 1 => fun bytes => readEntry 1 (readValue 0) failure bytes
  | depth + 2 => fun bytes =>
    readEntry (depth + 2) (readValue (depth + 1)) (readValue depth) bytes

/-- The value at the front of the bytes. -/
def decode? (bytes : List UInt8) : Option FieldValue :=
  ((readValue nestingLimit).run bytes).map (·.1)

end FieldValue

/-- The record at the front of the bytes. -/
def Record.decode? (bytes : List UInt8) : Option Record :=
  ((FieldValue.readRecord FieldValue.nestingLimit
    (FieldValue.readValue (FieldValue.nestingLimit - 2))).run bytes).map (·.1)

end Fieldbook
