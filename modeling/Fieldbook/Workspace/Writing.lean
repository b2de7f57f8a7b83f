import Fieldbook.Store.Writing
import Fieldbook.Workspace.Basic

/-!
# Workspace/Writing — what principals may write

A write is checked as a whole before anything is changed. A new resource needs an owner that is live
and that the principal may edit. A resource that exists has to be live and editable itself, and when
it is moved so has its new owner, which must not stand beneath it. Rules are written by `grant` and
`revoke` alone, and only by owners; directly under the root there are only folders that
`createRootFolder` makes.
-/

namespace Fieldbook.Workspace

variable (w : Workspace)

/-! ## Checks -/

/-- Refuses an owner that is deleted, or that the principal may not edit. -/
def checkOwner (principal : Principal) (owner : ResourceId) : Reading WorkspaceError Unit := do
  .ofExcept (w.store.requireLive owner)
  w.store.requireEdit principal owner

/-- Refuses a form that is none, or not valid. -/
def checkForm (r : Resource) : Except WorkspaceError Unit :=
  if r.classId = Form.classId then
    ((Form.ofResource r).bind Form.validate).mapError .data
  else .ok ()

/-- Refuses to move a resource where the principal may not, or under itself. -/
def checkMove (principal : Principal) (r : Resource) : Reading WorkspaceError Unit := do
  if ← .ofExcept (w.store.isWithin r.owner r.id) then .fail (.ownershipCycle r.id r.owner)
  else w.checkOwner principal r.owner

/-- Refuses a write that the principal may not make. -/
def checkWrite (principal : Principal) (r : Resource) : Reading WorkspaceError Unit := do
  if r.classId = AccessRule.classId ∨ AccessRule.isRuleId r.id then
    .fail (.unauthorized principal .writeRule r.id)
  else if r.owner.isRoot then .fail (.unauthorized principal .createUnderRoot r.id)
  else do
    .ofExcept (checkForm r)
    match ← .ofExcept ((w.store.get? r.id).mapError .store) with
    | none => w.checkOwner principal r.owner
    | some existing => do
      .ofExcept (w.store.requireLive r.id)
      w.store.requireEdit principal r.id
      if existing.owner ≠ r.owner then w.checkMove principal r

/-- Refuses to delete what is not there, is deleted already, or may not be edited. -/
def checkDelete (principal : Principal) (id : ResourceId) : Reading WorkspaceError Unit := do
  match ← .ofExcept ((w.store.get? id).mapError .store) with
  | none => .fail (.notFound id)
  | some _ => do
    .ofExcept (w.store.requireLive id)
    w.store.requireEdit principal id

/-! ## Writes -/

/-- Does a transaction if a check allows it. -/
def guarded {α : Type} (check : Reading WorkspaceError Unit) (t : Transaction α) :
    Except WorkspaceError α × Workspace :=
  match w.read check with
  | (.error e, w) => (.error e, w)
  | (.ok (), w) =>
    let (answer, store) := w.store.transact t
    (answer.mapError .store, { w with store := store })

/-- The class of folders. -/
def folderClass : ResourceId := ⟨"_folder"⟩

/-- A folder directly under the root. -/
def rootFolder (id : ResourceId) (label : String) : Resource :=
  .new id .root folderClass (Record.empty.set Child.labelKey (.text label))

/-- Makes a folder under the root, with the rule that makes a principal its owner. Anyone may. -/
def createRootFolder (owner : Principal) (now : Int) (id : ResourceId) (label : String) :
    Except WorkspaceError ResourceId × Workspace :=
  w.guarded (pure ()) do
    let _ ← Transaction.putBatch owner now
      [rootFolder id label, (AccessRule.ownerRule id owner).toResource]
    pure id

def put (principal : Principal) (now : Int) (r : Resource) :
    Except WorkspaceError Nat × Workspace :=
  w.guarded (w.checkWrite principal r) (Transaction.put principal now r)

def putForm (principal : Principal) (now : Int) (form : Form) :
    Except WorkspaceError Nat × Workspace :=
  w.put principal now form.toResource

/-- Writes a resource whose version is given when `marker` is committed. -/
def putPending (principal : Principal) (now : Int) (marker : Marker) (r : Resource) :
    Except WorkspaceError Marker × Workspace :=
  w.guarded (w.checkWrite principal r) (Transaction.putPending principal now marker r)

/-- Commits a pending write and indexes it. Anyone may who knows the marker. -/
def commitPending (marker : Marker) : Except WorkspaceError Nat × Workspace :=
  match w.store.commit marker with
  | (.error e, store) => (.error (.store e), { w with store := store })
  | (.ok v, store) =>
    let (indexed, store) := store.index marker
    ((indexed.map fun _ => v).mapError .store, { w with store := store })

def delete (principal : Principal) (id : ResourceId) : Except WorkspaceError Nat × Workspace :=
  w.guarded (w.checkDelete principal id) (Transaction.delete principal id)

/-- Writes a rule, under the name that belongs to its resource and principal. -/
def grant (principal : Principal) (now : Int) (rule : AccessRule) :
    Except WorkspaceError Nat × Workspace :=
  let named : AccessRule :=
    { rule with id := AccessRule.idFor rule.resource rule.principal }
  w.guarded (w.store.requireOwner principal rule.resource)
    (Transaction.put principal now named.toResource)

/-- Deletes the rule for a principal at a resource. -/
def revoke (principal : Principal) (id : ResourceId) (grantee : Principal) :
    Except WorkspaceError Nat × Workspace :=
  w.guarded (w.store.requireOwner principal id)
    (Transaction.delete principal (AccessRule.idFor id grantee))

end Fieldbook.Workspace
