import Fieldbook.Proofs.Workspace.Requests

/-!
# Proofs/Workspace/Changes — all that a call can do to the rows

What stands in the rows decides everything that principals are answered about resources and rights.
`Change w call outcome rows` has one constructor for each way in which a call changes them, with the
check that has allowed it; `change_of_perform` says that there is no other.
-/

namespace Fieldbook

/-- The resource that a call writes under a name of the caller's choice, and for whom. -/
def Call.written? : Call → Option (Principal × Int × Resource)
  | .put principal now r | .putPending principal now _ r => some (principal, now, r)
  | .putForm principal now form => some (principal, now, form.toResource)
  | _ => none

namespace Workspace

open Store (Receipt Performed)

/-- The resource that a rule is stored as when it is granted. -/
def granted (rule : AccessRule) : Resource :=
  ({ rule with id := AccessRule.idFor rule.resource rule.principal } : AccessRule).toResource

/-- What a call answers and leaves in the rows. -/
inductive Change (w : Workspace) : Call → Except WorkspaceError Answer → List Row → Prop where
  | refused {call : Call} {e : WorkspaceError} : Change w call (.error e) w.store.tables.rows
  /-- Nothing is written by a call that asks for no write, nor by a commit that is not indexed. -/
  | read {call : Call} {outcome : Except WorkspaceError Answer} (asked : w.request? call = none) :
      Change w call outcome w.store.tables.rows
  | folder {owner : Principal} {now : Int} {id : ResourceId} {label : String} {a : Answer}
      {v v' : Nat} (pos : 0 < v) (pos' : 0 < v') :
      Change w (.createRootFolder owner now id label) (.ok a)
        (Row.write (AccessRule.ownerRule id owner).toResource (.committed v') owner now
          (Row.write (rootFolder id label) (.committed v) owner now w.store.tables.rows))
  | write {call : Call} {principal : Principal} {now : Int} {r : Resource} {a : Answer}
      {stamp : Stamp} (asked : call.written? = some (principal, now, r))
      (allowed : (w.checkWrite principal r).answer = .ok ())
      (pos : ∀ v, stamp = .committed v → 0 < v) :
      Change w call (.ok a) (Row.write r stamp principal now w.store.tables.rows)
  | delete {principal : Principal} {id : ResourceId} {a : Answer} {v : Nat}
      (allowed : (w.checkDelete principal id).answer = .ok ()) (pos : 0 < v) :
      Change w (.delete principal id) (.ok a) (w.store.tables.rows.map (Row.mark id v))
  | grant {principal : Principal} {now : Int} {rule : AccessRule} {a : Answer} {v : Nat}
      (allowed : (w.store.requireOwner principal rule.resource).answer = .ok ()) (pos : 0 < v) :
      Change w (.grant principal now rule) (.ok a)
        (Row.write (granted rule) (.committed v) principal now w.store.tables.rows)
  | revoke {principal : Principal} {id : ResourceId} {grantee : Principal} {a : Answer} {v : Nat}
      (allowed : (w.store.requireOwner principal id).answer = .ok ()) (pos : 0 < v) :
      Change w (.revoke principal id grantee) (.ok a)
        (w.store.tables.rows.map (Row.mark (AccessRule.idFor id grantee) v))
  | commit {m : Marker} {outcome : Except WorkspaceError Answer} {v : Nat} (pos : 0 < v) :
      Change w (.commitPending m) outcome (w.store.tables.rows.map (Row.restamp m v))

variable {w : Workspace} {call : Call}

/-- A request that is done changes the rows as its operation does. -/
theorem change_of_performed {request : Request} {receipt : Receipt} {lookups : List Lookup}
    {s' : Store} {a : Answer} (asked : w.request? call = some request)
    (allowed : request.check.answer = .ok ())
    (performed : (w.store.learnAll lookups).Performed request.operation receipt s') :
    w.Change call (.ok a) s'.tables.rows := by
  have htables := Store.learnAll_tables w.store lookups
  cases call with
  | createRootFolder owner now id label =>
    obtain rfl := Option.some.inj asked
    cases performed with
    | putBatch all =>
      rw [htables] at all
      obtain _ | ⟨-, pos, _ | ⟨-, pos', _ | _⟩⟩ := all
      exact .folder pos pos'
  | put p now r =>
    obtain rfl := Option.some.inj asked
    cases performed with
    | put next pos =>
      rw [htables]
      exact .write rfl allowed fun _ hv => Stamp.pos_of_committed pos hv
  | putForm p now form =>
    obtain rfl := Option.some.inj asked
    cases performed with
    | put next pos =>
      rw [htables]
      exact .write rfl allowed fun _ hv => Stamp.pos_of_committed pos hv
  | putPending p now m r =>
    obtain rfl := Option.some.inj asked
    cases performed with
    | putPending =>
      rw [htables]
      exact .write rfl allowed fun v hv => nomatch hv
  | delete p id =>
    obtain rfl := Option.some.inj asked
    cases performed with
    | delete next pos found =>
      rw [htables]
      exact .delete allowed pos
  | grant p now rule =>
    obtain rfl := Option.some.inj asked
    cases performed with
    | put next pos =>
      rw [htables]
      exact .grant allowed pos
  | revoke p id grantee =>
    obtain rfl := Option.some.inj asked
    cases performed with
    | delete next pos found =>
      rw [htables]
      exact .revoke allowed pos
  | _ => cases asked

theorem rows_of_performed_commit {s s' : Store} {m : Marker} {receipt : Receipt}
    (h : s.Performed (.commit m) receipt s') : s'.tables.rows = s.tables.rows := by
  cases h <;> rfl

theorem rows_of_performed_index {s s' : Store} {m : Marker} {receipt : Receipt}
    (hs : s.Accounted) (h : s.Performed (.index m) receipt s') :
    ∃ v, 0 < v ∧ s'.tables.rows = s.tables.rows.map (Row.restamp m v) := by
  cases h with
  | index known =>
    obtain ⟨c, -, -, pos⟩ := hs.commitVersion?_eq_some.mp known
    exact ⟨_, pos, rfl⟩

/-- **There is nothing else that a call can do to the rows.** -/
theorem change_of_perform (hs : w.store.Accounted) (call : Call) :
    w.Change call (w.perform call).1 (w.perform call).2.store.tables.rows := by
  cases hrequest : w.request? call with
  | some request =>
    generalize hs : (w.perform call).2.store = s'
    have h := perform_request hrequest
    rw [hs] at h
    generalize (w.perform call).1 = outcome at h
    cases h with
    | refused =>
      rw [Store.learnAll_tables]
      exact .refused
    | done allowed performed => exact change_of_performed hrequest allowed performed
  | none =>
    cases happened_of_perform w call with
    | learned heq =>
      rw [heq, Store.learnAll_tables]
      exact .read hrequest
    | wrote asked => cases hrequest.symm.trans asked
    | committed asked commit index =>
      subst asked
      have hrows := rows_of_performed_commit commit
      rcases index with ⟨n, hindex⟩ | heq
      · obtain ⟨v, pos, hrestamp⟩ := rows_of_performed_index (commit.accounted hs) hindex
        rw [hrestamp, hrows]
        exact .commit pos
      · rw [heq, Store.learnAll_tables, hrows]
        exact .read hrequest

/-- What a write that is done has done to the rows. -/
theorem rows_of_written {p : Principal} {now : Int} {x : Resource} (hs : w.store.Accounted)
    (asked : call.written? = some (p, now, x)) (hok : (w.perform call).1.isOk = true) :
    (w.checkWrite p x).answer = .ok () ∧ ∃ stamp,
      (w.perform call).2.store.tables.rows = Row.write x stamp p now w.store.tables.rows := by
  have hchange := change_of_perform hs call
  generalize (w.perform call).2.store.tables.rows = rows at hchange
  generalize (w.perform call).1 = outcome at hchange hok
  cases hchange with
  | refused => cases hok
  | read asked' => cases call <;> first | (cases asked; done) | cases asked'
  | write asked' allowed =>
    cases asked.symm.trans asked'
    exact ⟨allowed, _, rfl⟩
  | _ => cases asked

end Workspace

end Fieldbook
