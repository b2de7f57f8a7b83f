import Fieldbook.FieldValue.Basic
import Fieldbook.Text.Quoted

/-!
# FieldValue/Detailed — the detailed text of values

The text that shows a value with all its parts, as error messages quote it: the kind, its parts in
parentheses or, where they have names, in braces. Texts are quoted, names of resources are not, and
numbers keep their point.
-/

namespace Fieldbook.FieldValue

/-- Named parts in braces, as in `Month \x7b year: 2014, month: 7 \x7d`. -/
def named (kind : String) (parts : List (String × String)) : String :=
  kind ++ " \x7b " ++ ", ".intercalate (parts.map fun p => p.1 ++ ": " ++ p.2) ++ " \x7d"

def inParens (kind part : String) : String := kind ++ "(" ++ part ++ ")"

def inBrackets (parts : List String) : String := "[" ++ ", ".intercalate parts ++ "]"

def idsDetailed (ids : List ResourceId) : String := inBrackets (ids.map ResourceId.detailed)

/-- An absent part, or a part marked as present. -/
def optionDetailed : Option String → String
  | none => "None"
  | some s => inParens "Some" s

mutual

def detailed : FieldValue → String
  | .text s => inParens "Text" (Text.quote s)
  | .quantity x units =>
    named "Quantity"
      [("value", x.render .detailed), ("units", optionDetailed (units.map Text.quote))]
  | .boolean b => inParens "Boolean" (if b then "true" else "false")
  | .choice ids => inParens "Enum" (idsDetailed ids)
  | .reference ids => inParens "Reference" (idsDetailed ids)
  | .barcode s => inParens "Barcode" (Text.quote s)
  | .narrative s => inParens "Narrative" (Text.quote s)
  | .geoPoint a b =>
    named "GeoPoint" [("latitude", a.render .detailed), ("longitude", b.render .detailed)]
  | .image b m => named "Image" [("blob_id", Text.quote b), ("mime_type", Text.quote m)]
  | .localDate d => inParens "LocalDate" d.text
  | .month y m => named "Month" [("year", toString y.toInt), ("month", toString m.toNat)]
  | .year y => inParens "Year" (toString y.toInt)
  | .localDateInterval a b => named "LocalDateInterval" [("start", a.text), ("end", b.text)]
  | .instant t => inParens "Instant" t.text
  | .expr s => inParens "Expr" (Text.quote s)
  | .record fields =>
    inParens "Record" (named "Record"
      [("fields", "\x7b" ++ ", ".intercalate (fieldsDetailed fields) ++ "\x7d")])
  | .list items => inParens "List" (inBrackets (itemsDetailed items))

def fieldsDetailed : List (String × FieldValue) → List String
  | [] => []
  | (k, v) :: rest => (Text.quote k ++ ": " ++ detailed v) :: fieldsDetailed rest

def itemsDetailed : List FieldValue → List String
  | [] => []
  | v :: rest => detailed v :: itemsDetailed rest

end

end Fieldbook.FieldValue
