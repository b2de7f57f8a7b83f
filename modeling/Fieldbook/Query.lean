import Fieldbook.Column.Filling
import Fieldbook.FormTree.Building
import Fieldbook.Keyed
import Fieldbook.Ownership.Governing

/-!
# Query — the resources of a form as columns

A query names fields of a form, or fields embedded in them by dotted paths, and is answered with
one column for each. The rows are the resources of the form's class that are neither deleted nor
waiting for a commit, that the principal may view, and for which the filter holds, in the order in
which they were first written.

A field that lies behind a reference, or whose type has no columns, is left out; a field that the
form does not have is an error.
-/

namespace Fieldbook

/-- What is asked of a form. -/
structure Query where
  form : ResourceId
  /-- Dotted paths of fields, or `Query.idField`. -/
  fields : List String
  principal : Principal
  /-- An expression that has to be true in a row. -/
  filter : Option String
  deriving DecidableEq

/-- Columns of one length under the fields they were asked by. -/
structure ColumnSet where
  columns : List (String × Column)
  numRows : Nat
  deriving DecidableEq

namespace ColumnSet

def column? (c : ColumnSet) (field : String) : Option Column := Keyed.find? field c.columns

/-- What one row shows of the columns. -/
def row (c : ColumnSet) (i : Nat) : List (String × Shown) :=
  c.columns.filterMap fun (field, column) => (column.shown? i).map fun s => (field, s)

/-- All rows, gaps left out. -/
def rows (c : ColumnSet) : List (List (String × Shown)) := (List.range c.numRows).map c.row

end ColumnSet

namespace Query

/-! ## From fields to columns -/

/-- The name under which the name of the resource itself is asked for. -/
def idField : String := "_id"

/-- A column to be filled. -/
structure Plan where
  name : String
  filling : Filling
  source : CellSource

/-- Where the values are of the field at the end of a trail, unless they lie behind a reference. -/
def source? (trail : List FieldNode) (last : FieldNode) : Option CellSource :=
  if last.isIntrinsic ∧ last.field.id = FormTree.creatorField.id then some .creator
  else if last.isIntrinsic ∧ last.field.id = FormTree.submissionTimeField.id then
    some .submissionTime
  else if trail.dropLast.all fun n => n.field.type.isEmbedded then
    some (.path (trail.map fun n => n.field.id.text))
  else none

/-- The column for a field, if it has one. -/
def plan (tree : FormTree) (name : String) : Except WorkspaceError (Option Plan) :=
  if name = idField then .ok (some ⟨name, .texts, .id⟩)
  else
    match (tree.trail? name).map fun trail => trail.map (·.2) with
    | none => .error (.fieldNotFound tree.root.id name)
    | some trail =>
      match trail.getLast? with
      | none => .error (.fieldNotFound tree.root.id name)
      | some last =>
        match source? trail last, Filling.ofType last.field.type with
        | none, _ => .ok none
        | some _, .error e => .error (.data e)
        | some _, .ok none => .ok none
        | some source, .ok (some filling) => .ok (some ⟨name, filling, source⟩)

/-- The columns for several fields. -/
def plans (tree : FormTree) : List String → Except WorkspaceError (List Plan)
  | [] => .ok []
  | name :: rest => do
    let p ← plan tree name
    let more ← plans tree rest
    pure (p.toList ++ more)

/-- Fills columns with rows. -/
def fill (plans : List Plan) (rows : List Submission) : ColumnSet where
  columns := Keyed.ofList (plans.map fun p => (p.name, p.filling.column p.source rows))
  numRows := rows.length

/-! ## Rows -/

/-- The filter as an expression. -/
def condition (q : Query) : Except WorkspaceError (Option Expr) :=
  match q.filter with
  | none => .ok none
  | some source =>
    match Expr.parse source with
    | .ok e => .ok (some e)
    | .error e => .error (.data (.parse e))

/-- Whether a filter lets a record pass: only what is true does. -/
def passes (filter : Option Expr) (value : Record) : Bool :=
  match filter with
  | none => true
  | some e =>
    match e.evaluate value.context with
    | .ok (.boolean true) => true
    | _ => false

end Query

namespace Store

variable (s : Store)

/-- The row of an entry, if the principal gets to see it. -/
def admitted? (principal : Principal) (filter : Option Expr) (e : Entry) :
    Reading WorkspaceError (Option Submission) := do
  if e.deleted then pure none
  else if ← .ofExcept (s.isDeleted e.owner) then pure none
  else
    match ← (s.committedVersion? e).mapError .store with
    | none => pure none
    | some _ => do
      let a ← s.authorize principal e.id
      pure (if a.canView ∧ Query.passes filter e.value then some e.submission else none)

/-- Answers a query, with trees of at most `limit` nested forms. -/
def query (limit : Nat) (q : Query) : Reading WorkspaceError ColumnSet := do
  s.requireView q.principal q.form
  .ofExcept (s.requireLive q.form)
  let tree ← FormTree.build (.ofStore s) limit q.form
  let plans ← .ofExcept (Query.plans tree q.fields)
  let filter ← .ofExcept q.condition
  let entries ← .ofExcept ((s.instances q.form).mapError .store)
  let rows ← Reading.collect (s.admitted? q.principal filter) entries
  pure (Query.fill plans rows)

end Store

end Fieldbook
