import Fieldbook.FieldValue.Basic

/-!
# FieldValue/Kind — the names of the kinds of values

Every kind of value has a name, by which the binary form and the detailed text call it. The kinds
also have an order, in which the binary form may give the place of a kind for its name.
-/

namespace Fieldbook.FieldValue

/-- The kinds of values. -/
inductive Kind where
  | text
  | quantity
  | boolean
  | choice
  | reference
  | barcode
  | narrative
  | geoPoint
  | image
  | localDate
  | month
  | year
  | localDateInterval
  | instant
  | expr
  | record
  | list
  deriving DecidableEq

namespace Kind

def name : Kind → String
  | .text => "Text"
  | .quantity => "Quantity"
  | .boolean => "Boolean"
  | .choice => "Enum"
  | .reference => "Reference"
  | .barcode => "Barcode"
  | .narrative => "Narrative"
  | .geoPoint => "GeoPoint"
  | .image => "Image"
  | .localDate => "LocalDate"
  | .month => "Month"
  | .year => "Year"
  | .localDateInterval => "LocalDateInterval"
  | .instant => "Instant"
  | .expr => "Expr"
  | .record => "Record"
  | .list => "List"

/-- All kinds in their order. -/
def all : List Kind :=
  [text, quantity, boolean, choice, reference, barcode, narrative, geoPoint, image, localDate,
    month, year, localDateInterval, instant, expr, record, list]

end Kind

/-- The kind of a value. -/
def kind : FieldValue → Kind
  | .text _ => .text
  | .quantity .. => .quantity
  | .boolean _ => .boolean
  | .choice _ => .choice
  | .reference _ => .reference
  | .barcode _ => .barcode
  | .narrative _ => .narrative
  | .geoPoint .. => .geoPoint
  | .image .. => .image
  | .localDate _ => .localDate
  | .month .. => .month
  | .year _ => .year
  | .localDateInterval .. => .localDateInterval
  | .instant _ => .instant
  | .expr _ => .expr
  | .record _ => .record
  | .list _ => .list

end Fieldbook.FieldValue
