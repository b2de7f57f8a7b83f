import Fieldbook.Workspace.Writing

/-!
# Workspace/Call — everything that can be asked of a workspace

A call is one request to a workspace, and `Workspace.perform` answers it. What a workspace does
over time is the list of calls made on it, `Workspace.run`. Times, new folder names and new commit
markers are part of a call, since no workspace decides them.
-/

namespace Fieldbook

/-- A request to a workspace. -/
inductive Call where
  | currentVersion
  | createRootFolder (owner : Principal) (now : Int) (id : ResourceId) (label : String)
  | put (principal : Principal) (now : Int) (r : Resource)
  | putForm (principal : Principal) (now : Int) (form : Form)
  | putPending (principal : Principal) (now : Int) (marker : Marker) (r : Resource)
  | commitPending (marker : Marker)
  | delete (principal : Principal) (id : ResourceId)
  | grant (principal : Principal) (now : Int) (rule : AccessRule)
  | revoke (principal : Principal) (id : ResourceId) (grantee : Principal)
  | get (principal : Principal) (id : ResourceId)
  | getForm (principal : Principal) (id : ResourceId)
  | children (principal : Principal) (owner : ResourceId)
  | rules (principal : Principal) (id : ResourceId)
  | authorize (principal : Principal) (id : ResourceId)
  | isDeleted (id : ResourceId)
  | requireLive (id : ResourceId)
  | snapshots (principal : Principal) (id : ResourceId)
  | formTree (principal : Principal) (id : ResourceId)
  | query (q : Query)

/-- What a workspace answers. -/
inductive Answer where
  | done
  | truth (b : Bool)
  | version (v : Nat)
  | folder (id : ResourceId)
  | marker (m : Marker)
  | resource (r : Resource)
  | form (f : Form)
  | children (cs : List Child)
  | rules (rs : List AccessRule)
  | authorization (a : Authorization)
  | snapshots (ss : List Snapshot)
  | tree (t : FormTree)
  | columns (c : ColumnSet)

namespace Workspace

/-- A workspace that nothing has been written to. -/
def empty (maxTreeDepth : Nat) : Workspace := ⟨.empty, maxTreeDepth⟩

/-- The same outcome with its answer put differently. -/
def answering {α : Type} (f : α → Answer) (x : Except WorkspaceError α × Workspace) :
    Except WorkspaceError Answer × Workspace :=
  (x.1.map f, x.2)

/-- Answers a call. -/
def perform (w : Workspace) : Call → Except WorkspaceError Answer × Workspace
  | .currentVersion =>
    answering .version (w.read (.ofExcept (w.store.tables.currentVersion.mapError .store)))
  | .createRootFolder owner now id label =>
    answering .folder (w.createRootFolder owner now id label)
  | .put principal now r => answering .version (w.put principal now r)
  | .putForm principal now form => answering .version (w.putForm principal now form)
  | .putPending principal now marker r => answering .marker (w.putPending principal now marker r)
  | .commitPending marker => answering .version (w.commitPending marker)
  | .delete principal id => answering .version (w.delete principal id)
  | .grant principal now rule => answering .version (w.grant principal now rule)
  | .revoke principal id grantee => answering .version (w.revoke principal id grantee)
  | .get principal id => answering .resource (w.read (w.get principal id))
  | .getForm principal id => answering .form (w.read (w.getForm principal id))
  | .children principal owner => answering .children (w.read (w.children principal owner))
  | .rules principal id => answering .rules (w.read (w.rules principal id))
  | .authorize principal id =>
    answering .authorization (w.read (w.store.authorize principal id))
  | .isDeleted id => answering .truth (w.read (.ofExcept (w.store.isDeleted id)))
  | .requireLive id =>
    answering (fun _ => .done) (w.read (.ofExcept (w.store.requireLive id)))
  | .snapshots principal id => answering .snapshots (w.read (w.snapshots principal id))
  | .formTree principal id => answering .tree (w.read (w.formTree principal id))
  | .query q => answering .columns (w.read (w.query q))

/-- The workspace after some calls, one after another. -/
def run (w : Workspace) (calls : List Call) : Workspace :=
  calls.foldl (fun w call => (w.perform call).2) w

end Workspace

end Fieldbook
