import Fieldbook.Record

/-!
# Form/FieldType — the types of form fields

A field has one of seventeen types. A type is kept as a record: its name under `typeClass`, and what
else it needs under keys of its own. Reading that record back is `FieldType.ofRecord`, which takes
some keys as absent and reports the first one that it cannot do without.
-/

namespace Fieldbook

/-- How many values a choice or a reference may have. -/
inductive Cardinality where
  | single
  | multiple
  deriving DecidableEq, Inhabited

namespace Cardinality

def name : Cardinality → String
  | .single => "single"
  | .multiple => "multiple"

def ofName (s : String) : Except DataError Cardinality :=
  if s = "single" then .ok .single
  else if s = "multiple" then .ok .multiple
  else .error (.invalid (.unknownCardinality s))

end Cardinality

/-- An item that a field offers for choice. -/
structure EnumItem where
  id : ResourceId
  label : String
  deriving DecidableEq

/-- What the values of a field are. -/
inductive FieldType where
  | text
  | quantity (units : Option String)
  | boolean
  | choice (cardinality : Cardinality) (items : List EnumItem)
  /-- Points at resources of some classes. -/
  | reference (cardinality : Cardinality) (range : IdSet)
  /-- Holds a record with the fields of another form. -/
  | embedded (form : ResourceId)
  | barcode
  | geoPoint
  | image
  | narrative
  | localDate
  | month
  | year
  | localDateInterval
  | instant
  /-- Is calculated from the other fields of its record. -/
  | calculated (expression : String)
  | expr
  deriving DecidableEq

namespace FieldType

/-- The name that a type is kept under. -/
def typeClass : FieldType → String
  | .text => "FREE_TEXT"
  | .quantity _ => "QUANTITY"
  | .boolean => "BOOLEAN"
  | .choice .. => "enumerated"
  | .reference .. => "REFERENCE"
  | .embedded _ => "record"
  | .barcode => "BARCODE"
  | .geoPoint => "geoPoint"
  | .image => "image"
  | .narrative => "NARRATIVE"
  | .localDate => "LOCAL_DATE"
  | .month => "month"
  | .year => "year"
  | .localDateInterval => "LOCAL_DATE_INTERVAL"
  | .instant => "instant"
  | .calculated _ => "calculated"
  | .expr => "expr"

/-- The forms that a field of this type leads to. -/
def range : FieldType → IdSet
  | .reference _ range => range
  | .embedded form => .singleton form
  | _ => .empty

def isReference : FieldType → Bool
  | .reference .. => true
  | _ => false

def isEmbedded : FieldType → Bool
  | .embedded _ => true
  | _ => false

/-! ## As a record -/

def itemValue (item : EnumItem) : FieldValue :=
  .record (Record.empty.set "id" (.text item.id.text) |>.set "label" (.text item.label))

/-- What a type keeps beside its name. -/
def parts : FieldType → List (String × FieldValue)
  | .quantity (some units) => [("units", .text units)]
  | .choice cardinality items =>
    [("cardinality", .text cardinality.name), ("values", .list (items.map itemValue))]
  | .reference cardinality range =>
    [("cardinality", .text cardinality.name), ("range", .reference range.toList)]
  | .embedded form => [("classId", .text form.text)]
  | .calculated expression => [("expression", .expr expression)]
  | _ => []

def toRecord (t : FieldType) : Record :=
  Record.ofList (("typeClass", .text t.typeClass) :: t.parts)

/-! ## From a record -/

/-- A single value unless the record says otherwise. -/
def cardinalityOf (r : Record) : Except DataError Cardinality :=
  match r.text? "cardinality" with
  | some s => Cardinality.ofName s
  | none => .ok .single

def itemOfValue (v : FieldValue) : Except DataError EnumItem :=
  match v.record? with
  | none => .error (.invalid .itemNotRecord)
  | some r => do
    let id ← r.text "id"
    let label ← r.text "label"
    pure ⟨⟨id⟩, label⟩

def rangeOf (r : Record) : Except DataError IdSet :=
  match r.get? "range" with
  | some (.reference ids) => .ok (.ofList ids)
  | none => .ok .empty
  | some got => .error (.invalid (.rangeNotReference got))

/-- The text of an expression, empty if the record has none. -/
def expressionOf (r : Record) : String :=
  match r.get? "expression" with
  | some (.expr s) | some (.text s) => s
  | _ => ""

/-- The type that a record keeps under a name. -/
def ofParts (r : Record) : String → Except DataError FieldType
  | "FREE_TEXT" => .ok .text
  | "QUANTITY" => .ok (.quantity (r.text? "units"))
  | "BOOLEAN" => .ok .boolean
  | "enumerated" => do
    let items ← ((r.list? "values").getD []).mapM itemOfValue
    let cardinality ← cardinalityOf r
    pure (.choice cardinality items)
  | "REFERENCE" => do
    let range ← rangeOf r
    let cardinality ← cardinalityOf r
    pure (.reference cardinality range)
  | "record" => do pure (.embedded ⟨← r.text "classId"⟩)
  | "BARCODE" => .ok .barcode
  | "geoPoint" => .ok .geoPoint
  | "image" => .ok .image
  | "NARRATIVE" => .ok .narrative
  | "LOCAL_DATE" => .ok .localDate
  | "month" => .ok .month
  | "year" => .ok .year
  | "LOCAL_DATE_INTERVAL" => .ok .localDateInterval
  | "instant" => .ok .instant
  | "calculated" => .ok (.calculated (expressionOf r))
  | "expr" => .ok .expr
  | other => .error (.invalid (.unknownFieldType other))

def ofRecord (r : Record) : Except DataError FieldType := do
  ofParts r (← r.text "typeClass")

end FieldType

end Fieldbook
