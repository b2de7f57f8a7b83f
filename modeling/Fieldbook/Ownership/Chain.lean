import Fieldbook.Store.Reading

/-!
# Ownership/Chain — the owners above a resource

Every resource has an owner, and the topmost ones are owned by the root. The chain of a resource
goes from owner to owner and ends where it has to: at the root, at a name that it has already met,
at a name without a row, or at a row that cannot be read. It ends after at most as many links as
there are rows, since no link names a row twice (`unmet_length_lt`).

What stands on a chain decides whether a resource is deleted, which rule governs it, and where it
may be moved; these are recursions over `OwnerChain`.
-/

namespace Fieldbook

/-- A resource and its owners, up to where they end. -/
inductive OwnerChain where
  | root
  /-- The chain has met this name before. -/
  | repeated (id : ResourceId)
  | missing (id : ResourceId)
  | unreadable (id : ResourceId) (e : StoreError)
  | link (entry : Entry) (up : OwnerChain)

namespace OwnerChain

/-- The rows that a chain has not met. -/
def unmet (rows : List Row) (met : List ResourceId) : List Row :=
  rows.filter fun row => row.id ∉ met

theorem row?_mem {t : Tables} {id : ResourceId} {row : Row} (h : t.row? id = some row) :
    row ∈ t.rows :=
  List.mem_of_find?_eq_some h

theorem row?_id {t : Tables} {id : ResourceId} {row : Row} (h : t.row? id = some row) :
    row.id = id := by
  simpa using List.find?_some h

/-- **Meeting a row leaves fewer rows to meet.** -/
theorem unmet_length_lt {t : Tables} {met : List ResourceId} {id : ResourceId} {row : Row}
    (hrow : t.row? id = some row) (hmet : id ∉ met) :
    (unmet t.rows (id :: met)).length < (unmet t.rows met).length := by
  have hid := row?_id hrow
  have hsub : unmet t.rows (id :: met) = (unmet t.rows met).filter (·.id ≠ id) := by
    simp [unmet, List.filter_filter, List.mem_cons, not_or]
  rw [hsub]
  refine Nat.lt_of_le_of_ne (List.length_filter_le ..) fun h => ?_
  have hall := List.length_filter_eq_length_iff.mp h row
    (by simp [unmet, row?_mem hrow, hid, hmet])
  simp [hid] at hall

/-- The chain from a name upwards, when it has met some names already. -/
def above (t : Tables) (met : List ResourceId) (id : ResourceId) : OwnerChain :=
  if id.isRoot then .root
  else if hmet : id ∈ met then .repeated id
  else
    match hrow : t.row? id with
    | none => .missing id
    | some row =>
      have := unmet_length_lt hrow hmet
      match row.read with
      | .error e => .unreadable id e
      | .ok entry => .link entry (above t (id :: met) entry.owner)
termination_by (unmet t.rows met).length

end OwnerChain

/-- The chain of a resource. -/
def Store.ownerChain (s : Store) (id : ResourceId) : OwnerChain := .above s.tables [] id

end Fieldbook
