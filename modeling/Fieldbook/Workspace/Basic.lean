import Fieldbook.Query

/-!
# Workspace/Basic — what principals may read

A workspace is a store, one tree of owned resources, that principals work with through rules.
Every reading is on behalf of a principal and refuses what the governing rules do not allow.
Resources that wait for their commit are left out of lists; asked for by name they are an
inconsistency.
-/

namespace Fieldbook

/-- A store that principals work with. -/
structure Workspace where
  store : Store
  /-- How many forms may be nested in the tree of a form. -/
  maxTreeDepth : Nat

/-- A resource in the list of what its owner has. -/
structure Child where
  id : ResourceId
  owner : ResourceId
  classId : ResourceId
  version : Nat
  label : Option String
  deriving DecidableEq

namespace Child

/-- The key of a label that is not that of a form. -/
def labelKey : String := "label"

/-- The label of a form, or any other. -/
def labelOf (value : Record) : Option String :=
  (value.text? Form.labelKey).or (value.text? labelKey)

def ofEntry (e : Entry) (version : Nat) : Child :=
  ⟨e.id, e.owner, e.classId, version, labelOf e.value⟩

end Child

namespace Workspace

variable (w : Workspace)

/-- Does a reading; the connection learns from it. -/
def read {α : Type} (r : Reading WorkspaceError α) : Except WorkspaceError α × Workspace :=
  let (answer, store) := w.store.run r
  (answer, { w with store := store })

/-- A resource that is neither deleted nor hidden. -/
def get (principal : Principal) (id : ResourceId) : Reading WorkspaceError Resource := do
  match ← (w.store.resource? id).mapError .store with
  | none => .fail (.notFound id)
  | some r => do
    .ofExcept (w.store.requireLive id)
    w.store.requireView principal id
    pure r

/-- A form that is neither deleted nor hidden. -/
def getForm (principal : Principal) (id : ResourceId) : Reading WorkspaceError Form := do
  let r ← w.get principal id
  .ofExcept ((Form.ofResource r).mapError .data)

/-- An entry as a child, if the principal gets to see it. Rules are no children. -/
def child? (principal : Principal) (e : Entry) : Reading WorkspaceError (Option Child) := do
  if e.deleted ∨ e.classId = AccessRule.classId then pure none
  else
    match ← (w.store.committedVersion? e).mapError .store with
    | none => pure none
    | some v => do
      let a ← w.store.authorize principal e.id
      pure (if a.canView then some (.ofEntry e v) else none)

/-- What an owner has that the principal may view. -/
def children (principal : Principal) (owner : ResourceId) :
    Reading WorkspaceError (List Child) := do
  if ¬owner.isRoot then .ofExcept (w.store.requireLive owner)
  let entries ← .ofExcept ((w.store.children owner).mapError .store)
  Reading.collect (w.child? principal) entries

/-- The rule that an entry stores, if it is a live rule. -/
def rule? (e : Entry) : Reading WorkspaceError (Option AccessRule) := do
  if e.deleted ∨ e.classId ≠ AccessRule.classId then pure none
  else do
    let v ← (w.store.resolveVersion e).mapError .store
    let rule ← .ofExcept ((AccessRule.ofResource (e.toResource v)).mapError .data)
    pure (some rule)

/-- The rules at a resource, for its owners. -/
def rules (principal : Principal) (id : ResourceId) :
    Reading WorkspaceError (List AccessRule) := do
  w.store.requireOwner principal id
  let entries ← .ofExcept ((w.store.children id).mapError .store)
  Reading.collect w.rule? entries

/-- The tree of a form that is neither deleted nor hidden. -/
def formTree (principal : Principal) (id : ResourceId) : Reading WorkspaceError FormTree := do
  .ofExcept (w.store.requireLive id)
  w.store.requireView principal id
  FormTree.build (.ofStore w.store) w.maxTreeDepth id

def query (q : Query) : Reading WorkspaceError ColumnSet := w.store.query w.maxTreeDepth q

/-- The versions of a resource that is not hidden. -/
def snapshots (principal : Principal) (id : ResourceId) :
    Reading WorkspaceError (List Snapshot) := do
  w.store.requireView principal id
  pure (w.store.snapshots id)

end Workspace

end Fieldbook
