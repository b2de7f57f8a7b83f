import Fieldbook.Expr.Parser
import Fieldbook.FieldValue.Detailed

/-!
# DataError — what can be wrong with data

The failures that need no store: bytes that are no value, texts that are no expression, expressions
without a value, and values that do not describe what they should.
-/

namespace Fieldbook

/-- Why a value does not describe what it should. -/
inductive InvalidData where
  /-- A record lacks a text under a key. -/
  | missingText (key : String)
  /-- A record lacks a record under a key. -/
  | missingRecord (key : String)
  | unknownCardinality (text : String)
  | unknownFieldType (name : String)
  /-- An item of an enumeration is no record. -/
  | itemNotRecord
  /-- The range of a reference field is no reference. -/
  | rangeNotReference (got : FieldValue)
  /-- An element of a form is no record. -/
  | elementNotRecord
  /-- A resource of another class was read as a form. -/
  | notForm (id classId : ResourceId)
  /-- A resource of another class was read as an access rule. -/
  | notRule (id : ResourceId)
  /-- An access rule does not name exactly one principal. -/
  | rulePrincipal (id : ResourceId) (got : Option FieldValue)
  deriving DecidableEq

/-- What can be wrong with data. -/
inductive DataError where
  /-- Bytes that are no value. -/
  | unreadable
  | parse (e : Expr.ParseError)
  | eval (e : Expr.EvalError)
  | invalid (cause : InvalidData)
  | duplicateField (form : ResourceId) (field : FieldId)
  deriving DecidableEq

def InvalidData.message : InvalidData → String
  | .missingText key => s!"missing text property '{key}'"
  | .missingRecord key => s!"missing record property '{key}'"
  | .unknownCardinality text => s!"unknown cardinality: {text}"
  | .unknownFieldType name => s!"unknown field type: {name}"
  | .itemNotRecord => "enum item is not a record"
  | .rangeNotReference got => s!"reference range must be a reference value, got {got.detailed}"
  | .elementNotRecord => "form element is not a record"
  | .notForm id classId => s!"resource {id.text} is of class {classId.text}, not a form class"
  | .notRule id => s!"resource {id.text} is not an access control rule"
  | .rulePrincipal id got =>
    let shown := FieldValue.optionDetailed (got.map FieldValue.detailed)
    s!"rule {id.text} has invalid principal: {shown}"

def DataError.message : DataError → String
  | .unreadable => "serialization error"
  | .parse e => s!"syntax error at {e.position}: {e.fault.message}"
  | .eval e => s!"evaluation error: {e.message}"
  | .invalid cause => s!"invalid data: {cause.message}"
  | .duplicateField form field =>
    s!"duplicate field id {field.text} in form class {form.text}"

/-- The value of an expression text in a context. -/
def Expr.evaluateText (source : String) (ctx : Context) : Except DataError Expr.Operand :=
  match Expr.parse source with
  | .error e => .error (.parse e)
  | .ok e =>
    match e.evaluate ctx with
    | .error e => .error (.eval e)
    | .ok v => .ok v

end Fieldbook
