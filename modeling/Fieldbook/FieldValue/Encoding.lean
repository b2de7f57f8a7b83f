import Fieldbook.FieldValue.Kind
import Fieldbook.MessagePack.Writer

/-!
# FieldValue/Encoding — the binary form of values

A value is a map of one entry, from the name of its kind to its content. Contents of several parts
are rows of the parts, dates and instants are their texts, and a record is a row of one map. Rows and
maps lie in each other as deep as the value is nested; the maps that name a kind do not count.
-/

namespace Fieldbook

open MessagePack (arrayHead mapHead)

namespace FieldValue

def encodeIds (ids : List ResourceId) : List UInt8 :=
  arrayHead ids.length ++ ids.flatMap fun r => MessagePack.text r.text

def encodeText? : Option String → List UInt8
  | none => MessagePack.nil
  | some s => MessagePack.text s

/-- The map from the name of a kind to a content. -/
def entry (k : Kind) (content : List UInt8) : List UInt8 :=
  mapHead 1 ++ MessagePack.text k.name ++ content

mutual

/-- The binary form of a value. -/
def encode : FieldValue → List UInt8
  | .text s => entry .text (MessagePack.text s)
  | .quantity x units => entry .quantity (arrayHead 2 ++ MessagePack.double x ++ encodeText? units)
  | .boolean b => entry .boolean (MessagePack.boolean b)
  | .choice ids => entry .choice (encodeIds ids)
  | .reference ids => entry .reference (encodeIds ids)
  | .barcode s => entry .barcode (MessagePack.text s)
  | .narrative s => entry .narrative (MessagePack.text s)
  | .geoPoint a b => entry .geoPoint (arrayHead 2 ++ MessagePack.double a ++ MessagePack.double b)
  | .image b m => entry .image (arrayHead 2 ++ MessagePack.text b ++ MessagePack.text m)
  | .localDate d => entry .localDate (MessagePack.text d.text)
  | .month y m =>
    entry .month (arrayHead 2 ++ MessagePack.integer y.toInt ++ MessagePack.natural m.toNat)
  | .year y => entry .year (MessagePack.integer y.toInt)
  | .localDateInterval a b =>
    entry .localDateInterval (arrayHead 2 ++ MessagePack.text a.text ++ MessagePack.text b.text)
  | .instant t => entry .instant (MessagePack.text t.text)
  | .expr s => entry .expr (MessagePack.text s)
  | .record fields => entry .record (arrayHead 1 ++ mapHead fields.length ++ encodeFields fields)
  | .list items => entry .list (arrayHead items.length ++ encodeItems items)

def encodeFields : List (String × FieldValue) → List UInt8
  | [] => []
  | (k, v) :: rest => MessagePack.text k ++ encode v ++ encodeFields rest

def encodeItems : List FieldValue → List UInt8
  | [] => []
  | v :: rest => encode v ++ encodeItems rest

end

mutual

/-- How many rows and maps of the binary form lie in each other, beside the maps that name a kind. -/
def nesting : FieldValue → Nat
  | .record fields => fieldsNesting fields + 2
  | .list items => itemsNesting items + 1
  | .quantity .. | .choice _ | .reference _ | .geoPoint .. | .image .. | .month ..
  | .localDateInterval .. => 1
  | .text _ | .boolean _ | .barcode _ | .narrative _ | .localDate _ | .year _ | .instant _
  | .expr _ => 0

def fieldsNesting : List (String × FieldValue) → Nat
  | [] => 0
  | (_, v) :: rest => max (nesting v) (fieldsNesting rest)

def itemsNesting : List FieldValue → Nat
  | [] => 0
  | v :: rest => max (nesting v) (itemsNesting rest)

end

end FieldValue

namespace Record

/-- The binary form of a record. -/
def encode (r : Record) : List UInt8 :=
  arrayHead 1 ++ mapHead r.length ++ FieldValue.encodeFields r

/-- How many rows and maps lie in each other in the binary form of a record. -/
def nesting (r : Record) : Nat := FieldValue.fieldsNesting r + 2

end Record

end Fieldbook
