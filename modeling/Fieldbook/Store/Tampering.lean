import Fieldbook.Store.Writing

/-!
# Store/Tampering — changes of the tables that no write makes

Changes behind the back of the store, as a repair or a fault would make them. Each says how many
rows of the tables it changes. They are the way to tables that contradict themselves.
-/

namespace Fieldbook.Tables

/-- The tables with the row of a resource changed, and whether there is one. -/
def alterRow (t : Tables) (id : ResourceId) (edit : Row → Row) : Nat × Tables :=
  ((t.rows.filter (·.id = id)).length, t.editRows (·.id = id) edit)

/-- Puts bytes in the place of a content and leaves its digest. -/
def replaceContent (t : Tables) (id : ResourceId) (bytes : List UInt8) : Nat × Tables :=
  t.alterRow id fun row => { row with replaced := some bytes }

/-- Puts bytes in the place of a content, with their digest. -/
def setContent (t : Tables) (id : ResourceId) (bytes : List UInt8) : Nat × Tables :=
  t.alterRow id fun row => { row with content := .raw bytes, replaced := none }

/-- Stamps a row with a version, which need not be one. -/
def setRowVersion (t : Tables) (id : ResourceId) (version : Int) : Nat × Tables :=
  t.alterRow id fun row => { row with stamp := .committed version }

def setCreatedAt (t : Tables) (id : ResourceId) (ms : Int) : Nat × Tables :=
  t.alterRow id fun row => { row with createdAt := ms }

/-- Records a commit at a version, which need not be one. -/
def setCommitVersion (t : Tables) (marker : Marker) (version : Int) : Nat × Tables :=
  ((t.commits.filter (·.marker = marker)).length,
    { t with commits := t.commits.map fun c =>
      if c.marker = marker then { c with version := version } else c })

/-- Forgets a commit. -/
def dropCommit (t : Tables) (marker : Marker) : Nat × Tables :=
  ((t.commits.filter (·.marker = marker)).length,
    { t with commits := t.commits.filter (·.marker ≠ marker) })

/-- Sets the counter of versions. -/
def setCounter (t : Tables) (value : Int) : Nat × Tables := (1, { t with counter := some value })

end Fieldbook.Tables
