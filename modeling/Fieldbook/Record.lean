import Fieldbook.DataError

/-!
# Record — values under keys

A record is what a resource holds. Keys without a value are absent. As a context of expressions a
record answers a path by going down through records to the last name.
-/

namespace Fieldbook.Record

def empty : Record := []

def get? (r : Record) (key : String) : Option FieldValue := Keyed.find? key r

/-- The record with a value under a key, in place of the value that was there. -/
def set (r : Record) (key : String) (value : FieldValue) : Record := Keyed.insert key value r

/-- The record without a key. -/
def remove (r : Record) (key : String) : Record := Keyed.erase key r

/-- A value under a key if there is one, the record as it is otherwise. -/
def setOption (r : Record) (key : String) : Option FieldValue → Record
  | some v => r.set key v
  | none => r

/-- The record of some pairs, of which the last counts for each key. -/
def ofList (entries : List (String × FieldValue)) : Record := Keyed.ofList entries

/-! ## Values of one kind -/

def text? (r : Record) (key : String) : Option String := (r.get? key).bind FieldValue.text?

def boolean? (r : Record) (key : String) : Option Bool := (r.get? key).bind FieldValue.boolean?

def record? (r : Record) (key : String) : Option Record := (r.get? key).bind FieldValue.record?

def list? (r : Record) (key : String) : Option (List FieldValue) :=
  (r.get? key).bind FieldValue.list?

/-- The text under a key, which has to be there. -/
def text (r : Record) (key : String) : Except DataError String :=
  match r.text? key with
  | some s => .ok s
  | none => .error (.invalid (.missingText key))

/-- The record under a key, which has to be there. -/
def record (r : Record) (key : String) : Except DataError Record :=
  match r.record? key with
  | some s => .ok s
  | none => .error (.invalid (.missingRecord key))

/-! ## Context -/

/-- The record reached through the records under some keys, one in the other. -/
def descend (r : Record) : List String → Option Record
  | [] => some r
  | key :: rest => do descend (← r.record? key) rest

/-- The value at the end of a path of keys. -/
def resolve (r : Record) : List String → Option FieldValue
  | [] => none
  | [key] => r.get? key
  | key :: rest => do resolve (← r.record? key) rest

/-- A record as the context of an expression. -/
def context (r : Record) : Context := fun path => (r.resolve path).map FieldValue.operand

end Fieldbook.Record
